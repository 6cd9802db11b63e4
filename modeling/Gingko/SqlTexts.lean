import Gingko.AgentRequests
import Gingko.SqlLiterals
import Gingko.TrackerLoads

/-!
The statements that a task sends to the database. Texts of the client and of the
session stand between quotes as they are, and a statement is handed over as a C
string. Each statement is compared with the pieces that it is meant to have: its
code, and literals whose values are those texts.
-/
namespace Gingko.SqlTexts

open Base64Codec AgentTasks AgentRequests SqlLiterals
open PeerUpdates.RedisCommandCreator (ascii)
open TrackerState (cString)
open CommandTexts (cString_of_ne_zero digit_bounds)
open TrackerLoads (decimal)

def statusName : StatusCode → ByteString
  | .unknow => ascii "UNKNOW"
  | .error => ascii "ERROR"
  | .checkq => ascii "CHECKQ"
  | .checking => ascii "CHECKING"
  | .dtorrent => ascii "DTORRENT"
  | .download => ascii "DOWNLOAD"
  | .paused => ascii "PAUSED"
  | .seeding => ascii "SEEDING"
  | .finished => ascii "FINISHED"
  | .canceled => ascii "CANCELED"

/-- The statement of GenTaskId. -/
def genTaskIdSql (t : Task) : ByteString :=
  ascii "begin transaction; insert into task(infohash, save_path, status, uid, gid, cmd, " ++
    ascii "start_time) values('" ++
    t.infohash ++ ascii "', '" ++ t.getDataPath ++ ascii "', '" ++
    statusName .download ++ ascii "', '" ++
    decimal t.cred.uid.toNat ++ ascii "', '" ++ decimal t.cred.gid.toNat ++ ascii "', '" ++
    t.cmd ++ ascii "', datetime('now', 'localtime'))" ++
    ascii "; select last_insert_rowid(); commit transaction"

def text (value : ByteString) : Piece := .literal value value

def comma : Piece := .code (ascii ", ")

def genTaskIdPieces (t : Task) : List Piece :=
  [.code (ascii "begin transaction; insert into task(infohash, save_path, status, uid, gid, cmd, "),
    .code (ascii "start_time) values("), text t.infohash, comma, text t.getDataPath, comma,
    text (statusName .download), comma, text (decimal t.cred.uid.toNat), comma,
    text (decimal t.cred.gid.toNat), comma, text t.cmd, .code (ascii ", datetime("),
    text (ascii "now"), comma, text (ascii "localtime"), .code (ascii "))"),
    .code (ascii "; select last_insert_rowid(); commit transaction")]

section Quotes

/-- The bytes of a literal by its letters, without a way through its encoding. -/
theorem ascii_ofList (letters : List Char) :
    ascii (String.ofList letters) = letters.map (fun c => UInt8.ofNat c.toNat) := by
  rw [ascii, String.toList_ofList]

/-- The quotes that the code writes are those of the literals. -/
theorem ascii_between : ascii "', '" = quote :: (ascii ", " ++ [quote]) := by decide

theorem ascii_values : ascii "start_time) values('" = ascii "start_time) values(" ++ [quote] := by
  rw [ascii_ofList, ascii_ofList]
  decide

theorem ascii_startTime : ascii "', datetime('now', 'localtime'))" =
    quote :: (ascii ", datetime(" ++ quote :: (ascii "now" ++ quote :: (ascii ", " ++
      quote :: (ascii "localtime" ++ quote :: ascii "))")))) := by
  repeat rw [ascii_ofList]
  decide

theorem ascii_infohash :
    ascii "update task set infohash = '" = ascii "update task set infohash = " ++ [quote] := by
  rw [ascii_ofList, ascii_ofList]
  decide

theorem ascii_status : ascii "', status = '" = quote :: (ascii ", status = " ++ [quote]) := by
  decide

theorem ascii_upload : ascii "', upload = " = quote :: ascii ", upload = " := by decide

theorem ascii_error : ascii ", error = '" = ascii ", error = " ++ [quote] := by decide

theorem ascii_quote : ascii "'" = [quote] := by decide

theorem ascii_endTime : ascii ", end_time = datetime('now', 'localtime')" =
    ascii ", end_time = datetime(" ++ quote :: (ascii "now" ++ quote :: (ascii ", " ++
      quote :: (ascii "localtime" ++ quote :: ascii ")"))) := by
  repeat rw [ascii_ofList]
  decide

end Quotes

theorem render_genTaskId (t : Task) : render (genTaskIdPieces t) = genTaskIdSql t := by
  simp only [genTaskIdSql, genTaskIdPieces, render, text, comma, ascii_between, ascii_values,
    ascii_startTime, List.append_assoc, List.cons_append, List.nil_append, List.append_nil]

/-- The error of the session goes before that of the task. -/
def errorOf (t : Task) (ts : TorrentStatus) : ByteString :=
  if ts.error = [] then t.error else ts.error

section UpdateStatus

variable (t : Task) (ts : TorrentStatus) (totalPayloadDownload : Int64) (isFinish : Bool)

/-- The statement of UpdateStatus. -/
def updateStatusSql : ByteString :=
  ascii "update task set infohash = '" ++ cString t.infohash ++ ascii "', status = '" ++
    statusName (getStatusCode t ts isFinish) ++ ascii "', upload = " ++
    decimal ts.totalPayloadUpload.toInt ++ ascii ", download = " ++
    decimal totalPayloadDownload.toInt ++ ascii ", progress = " ++ decimal ts.progressPpm.toInt ++
    ascii ", error = '" ++ errorOf t ts ++ ascii "'" ++
    (if isFinish then ascii ", end_time = datetime('now', 'localtime')" else []) ++
    ascii " where id = " ++ decimal t.id.toInt

def endTimePieces : List Piece :=
  if isFinish then
    [.code (ascii ", end_time = datetime("), text (ascii "now"), comma, text (ascii "localtime"),
      .code (ascii ")")]
  else []

def updateStatusPieces : List Piece :=
  [.code (ascii "update task set infohash = "), .literal (cString t.infohash) t.infohash,
    .code (ascii ", status = "), text (statusName (getStatusCode t ts isFinish)),
    .code (ascii ", upload = "), .code (decimal ts.totalPayloadUpload.toInt),
    .code (ascii ", download = "), .code (decimal totalPayloadDownload.toInt),
    .code (ascii ", progress = "), .code (decimal ts.progressPpm.toInt),
    .code (ascii ", error = "), text (errorOf t ts)] ++ endTimePieces isFinish ++
    [.code (ascii " where id = "), .code (decimal t.id.toInt)]

theorem render_updateStatus :
    render (updateStatusPieces t ts totalPayloadDownload isFinish) =
      updateStatusSql t ts totalPayloadDownload isFinish := by
  cases isFinish <;>
    simp only [updateStatusSql, updateStatusPieces, endTimePieces, render, text, comma,
      ascii_infohash, ascii_status, ascii_upload, ascii_error, ascii_quote, ascii_endTime,
      List.append_assoc, List.cons_append, List.nil_append, List.append_nil, if_true,
      if_false, Bool.false_eq_true]

end UpdateStatus

section Numbers

/-- A digit is neither a quote nor part of a comment, and it is no zero byte. -/
theorem digit_letter (c : UInt8) (hlow : 48 ≤ c.toNat) (hhigh : c.toNat ≤ 57) :
    plainLetter c = true ∧ c ≠ dash := by
  have hne (d : UInt8) (hd : d.toNat < 48) : c ≠ d := by
    rintro rfl
    omega
  have hzero : c ≠ 0 := hne 0 (by decide)
  have hquote : c ≠ quote := hne quote (by decide)
  have hdash : c ≠ dash := hne dash (by decide)
  have hslash : c ≠ slash := hne slash (by decide)
  simp [plainLetter, hzero, hquote, hdash, hslash]

theorem digits_letters (n : ℕ) (c : UInt8) (hc : c ∈ TrackerRings.toString n) :
    plainLetter c = true ∧ c ≠ dash := by
  obtain ⟨d, hd, rfl⟩ := List.mem_map.mp hc
  obtain ⟨hlow, hhigh, hbyte⟩ := digit_bounds n d hd
  exact digit_letter _ (by omega) (by omega)

theorem digits_all (n : ℕ) : (TrackerRings.toString n).all plainLetter = true :=
  List.all_eq_true.mpr (fun c hc => (digits_letters n c hc).1)

/-- The sign of a negative number is a single dash. -/
theorem plain_decimal (i : ℤ) : Plain (decimal i) := by
  unfold decimal
  split
  · have hletters := digits_letters i.natAbs
    have hplain := plain_of_all _ (digits_all i.natAbs)
    cases hdigits : TrackerRings.toString i.natAbs with
    | nil => exact absurd (List.map_eq_nil_iff.mp hdigits) Nat.toDigits_ne_nil
    | cons c rest =>
      rw [hdigits] at hletters hplain
      exact plain_dash c rest (hletters c (List.mem_cons_self ..)).2 hplain
  · exact plain_of_all _ (digits_all _)

theorem clean_decimal (n : ℕ) : Clean (decimal n) := by
  rw [decimal, if_neg (by omega)]
  exact clean_of_all _ (digits_all _)

theorem clean_statusName (code : StatusCode) : Clean (statusName code) := by
  cases code <;> exact clean_of_all _ (by decide)

end Numbers

theorem framed_ascii (letters : List Char) (rest : List Piece)
    (hcode : (letters.map (fun c => UInt8.ofNat c.toNat)).all plainLetter = true)
    (h : Framed rest) : Framed (.code (ascii (String.ofList letters)) :: rest) := by
  rw [← ascii_ofList] at hcode
  exact h.code (plain_of_all _ hcode)

theorem framed_text (value : ByteString) (letters : List Char) (rest : List Piece) (c : UInt8)
    (hhead : (letters.map (fun c => UInt8.ofNat c.toNat)).head? = some c) (hc : c ≠ quote)
    (h : Framed (.code (ascii (String.ofList letters)) :: rest)) :
    Framed (text value :: .code (ascii (String.ofList letters)) :: rest) := by
  rw [← ascii_ofList] at hhead
  exact h.literal c (fun _ => rfl) hhead hc

theorem framed_between (value : ByteString) (rest : List Piece) (h : Framed rest) :
    Framed (text value :: comma :: rest) :=
  framed_text value [',', ' '] rest 44 (by decide) (by decide) (framed_ascii _ _ (by decide) h)

theorem framed_genTaskId (t : Task) : Framed (genTaskIdPieces t) := by
  have htail : Framed (([.code (ascii "))"),
      .code (ascii "; select last_insert_rowid(); commit transaction")] : List Piece)) :=
    framed_ascii _ _ (by decide) (framed_ascii _ _ (by decide) trivial)
  have htime : Framed [.code (ascii ", datetime("), text (ascii "now"), comma,
      text (ascii "localtime"), .code (ascii "))"),
      .code (ascii "; select last_insert_rowid(); commit transaction")] :=
    framed_ascii _ _ (by decide)
      (framed_between _ _ (framed_text _ _ _ 41 (by decide) (by decide) htail))
  refine framed_ascii _ _ (by decide) (framed_ascii _ _ (by decide) ?_)
  refine framed_between _ _ (framed_between _ _ (framed_between _ _ ?_))
  refine framed_between _ _ (framed_between _ _ ?_)
  exact framed_text t.cmd _ _ 44 (by decide) (by decide) htime

theorem framed_updateStatus (t : Task) (ts : TorrentStatus) (totalPayloadDownload : Int64)
    (isFinish : Bool) : Framed (updateStatusPieces t ts totalPayloadDownload isFinish) := by
  have hwhere : Framed [.code (ascii " where id = "), .code (decimal t.id.toInt)] :=
    framed_ascii _ _ (by decide) (Framed.code (plain_decimal _) trivial)
  have htime : Framed (.code (ascii ", end_time = datetime(") :: text (ascii "now") :: comma ::
      text (ascii "localtime") :: .code (ascii ")") ::
      [.code (ascii " where id = "), .code (decimal t.id.toInt)]) :=
    framed_ascii _ _ (by decide) (framed_between _ _ (framed_text _ _ _ 41 (by decide) (by decide)
      (framed_ascii _ _ (by decide) hwhere)))
  have hend : Framed (text (errorOf t ts) :: (endTimePieces isFinish ++
      [.code (ascii " where id = "), .code (decimal t.id.toInt)])) := by
    cases isFinish with
    | false => exact framed_text _ _ _ 32 (by decide) (by decide) hwhere
    | true => exact framed_text _ _ _ 44 (by decide) (by decide) htime
  have hinfohash : 0 ∉ t.infohash → cString t.infohash = t.infohash := by
    intro hzero
    apply cString_of_ne_zero
    rintro c hc rfl
    exact hzero hc
  refine framed_ascii _ _ (by decide) (Framed.literal 44 hinfohash (by decide) (by decide) ?_)
  refine framed_ascii _ _ (by decide) (framed_text _ _ _ 44 (by decide) (by decide) ?_)
  refine framed_ascii _ _ (by decide) (Framed.code (plain_decimal _) ?_)
  refine framed_ascii _ _ (by decide) (Framed.code (plain_decimal _) ?_)
  refine framed_ascii _ _ (by decide) (Framed.code (plain_decimal _) ?_)
  exact framed_ascii _ _ (by decide) hend

/-- The database reads the statement, a C string, as the pieces that are meant. -/
def ReadAsMeant (sql : ByteString) (pieces : List Piece) : Prop :=
  lex (cString sql) = intended pieces

instance (sql : ByteString) (pieces : List Piece) : Decidable (ReadAsMeant sql pieces) :=
  inferInstanceAs (Decidable (_ = _))

theorem readAsMeant_iff (pieces : List Piece) (hframed : Framed pieces) :
    ReadAsMeant (render pieces) pieces ↔ ∀ value ∈ values pieces, Clean value :=
  lex_render_iff pieces hframed

theorem clean_ascii (text : String) (h : (ascii text).all plainLetter = true) :
    Clean (ascii text) := clean_of_all _ h

theorem clean_dataPath (t : Task) : Clean t.getDataPath ↔ Clean t.savePath ∧ Clean t.newName := by
  have hslash : Clean [slash] := by simp [Clean, slash, quote]
  have hsplit : t.getDataPath = t.savePath ++ ([slash] ++ t.newName) := rfl
  rw [hsplit, clean_append, clean_append]
  simp [hslash]

theorem genTaskId_readAsMeant (t : Task) :
    ReadAsMeant (genTaskIdSql t) (genTaskIdPieces t) ↔
      Clean t.infohash ∧ Clean t.savePath ∧ Clean t.newName ∧ Clean t.cmd := by
  have hnow := clean_ascii "now" (by decide)
  have hlocaltime := clean_ascii "localtime" (by decide)
  rw [← render_genTaskId, readAsMeant_iff _ (framed_genTaskId t)]
  simp [genTaskIdPieces, text, comma, values, clean_dataPath, clean_statusName, clean_decimal,
    hnow, hlocaltime, and_assoc]

theorem updateStatus_readAsMeant (t : Task) (ts : TorrentStatus) (totalPayloadDownload : Int64)
    (isFinish : Bool) :
    ReadAsMeant (updateStatusSql t ts totalPayloadDownload isFinish)
        (updateStatusPieces t ts totalPayloadDownload isFinish) ↔
      Clean t.infohash ∧ Clean (errorOf t ts) := by
  have hnow := clean_ascii "now" (by decide)
  have hlocaltime := clean_ascii "localtime" (by decide)
  rw [← render_updateStatus, readAsMeant_iff _ (framed_updateStatus t ts _ isFinish)]
  cases isFinish <;>
    simp [updateStatusPieces, endTimePieces, text, comma, values, clean_statusName, hnow,
      hlocaltime]

/-- Both statements say what they are meant to say exactly when no text in them has a
quote or a zero byte. -/
theorem sql_texts_iff (t : Task) (ts : TorrentStatus) (totalPayloadDownload : Int64)
    (isFinish : Bool) :
    (ReadAsMeant (genTaskIdSql t) (genTaskIdPieces t) ↔
      Clean t.infohash ∧ Clean t.savePath ∧ Clean t.newName ∧ Clean t.cmd) ∧
    (ReadAsMeant (updateStatusSql t ts totalPayloadDownload isFinish)
        (updateStatusPieces t ts totalPayloadDownload isFinish) ↔
      Clean t.infohash ∧ Clean (errorOf t ts)) :=
  ⟨genTaskId_readAsMeant t, updateStatus_readAsMeant t ts totalPayloadDownload isFinish⟩

/-- A command that ends its literal and goes on in the code. -/
theorem command_escapes :
    ¬ ∀ t : Task, ReadAsMeant (genTaskIdSql t) (genTaskIdPieces t) := by
  intro hall
  have hcmd := ((genTaskId_readAsMeant _).mp
    (hall { cmd := ascii "', ''); update task set uid = '0'; --" })).2.2.2
  exact absurd hcmd.1 (by decide)

end Gingko.SqlTexts
