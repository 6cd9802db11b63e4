import Gingko.ThriftFields
import Gingko.TokenStreams

/-!
The structs of the announce service on the wire. A reader fills the object it is given: set
fields are stored over it and the others keep what they held. A message is read alike with
fields in it that this version does not know, at any place and in any of its structs. All of
it goes for every protocol that reads back what it has written.
-/
namespace Gingko.AnnounceMessages

open Base64Codec PeerRecords FieldProtocols
open ThriftFields (statusCode statusOfCode)

variable {τ : Type} (prot : Protocol τ)

structure AnnounceResponse where
  ret : Option (BitVec 16) := none
  failureReason : Option ByteString := none
  minInterval : Option (BitVec 32) := none
  haveSeed : Option Bool := none
  peers : List Peer := []

structure ControlByInfohashRequest where
  ip : Option ByteString := none
  token : Option ByteString := none
  infohash : Option ByteString := none

structure BaseResponse where
  retval : Option (BitVec 16) := none
  message : Option ByteString := none

section Peers

def Peer.cases : List (Case τ Peer) :=
  [Case.of 1 .string prot.readString fun p v => { p with peerid := some v },
   Case.of 2 .string prot.readString fun p v => { p with ip := some v },
   Case.of 3 .i32 prot.readI32 fun p v => { p with port := some v },
   Case.of 4 .string prot.readString fun p v => { p with idc := some v }]

def Peer.read : Peer → List τ → Option (Peer × List τ) := readStruct prot (Peer.cases prot)

def Peer.fields (p : Peer) : List (WireField τ) :=
  (p.peerid.map fun v => .scalar prot 1 (.string v)).toList ++
  (p.ip.map fun v => .scalar prot 2 (.string v)).toList ++
  (p.port.map fun v => .scalar prot 3 (.i32 v)).toList ++
  (p.idc.map fun v => .scalar prot 4 (.string v)).toList

def Peer.write (p : Peer) : List τ := writeStruct prot (Peer.fields prot p)

/-- The object after the fields of another have been stored over it. -/
def Peer.onto (p old : Peer) : Peer where
  peerid := p.peerid.or old.peerid
  ip := p.ip.or old.ip
  port := p.port.or old.port
  idc := p.idc.or old.idc

structure Peer.Fits (p : Peer) : Prop where
  peerid : TextFits prot p.peerid
  ip : TextFits prot p.ip
  idc : TextFits prot p.idc

theorem Peer.onto_new (p : Peer) : Peer.onto p {} = p := by
  obtain ⟨peerid, ip, port, idc⟩ := p
  simp only [Peer.onto, Option.or_none]

variable {prot}

theorem Peer.folds (hprot : prot.Lawful) (p old : Peer) (hfits : Peer.Fits prot p) :
    Folds (readCase prot (Peer.cases prot)) old (Peer.fields prot p) (Peer.onto p old) := by
  obtain ⟨peerid, ip, port, idc⟩ := p
  let s : Peer := { old with peerid := peerid.or old.peerid }
  let t : Peer := { s with ip := ip.or s.ip }
  let u : Peer := { t with port := port.or t.port }
  have hpeerid : Folds (readCase prot (Peer.cases prot)) old
      (peerid.map fun v => .scalar prot 1 (.string v)).toList s :=
    folds_string hprot _ 1 _ rfl peerid hfits.peerid (by cases peerid <;> rfl)
  have hip : Folds (readCase prot (Peer.cases prot)) s
      (ip.map fun v => .scalar prot 2 (.string v)).toList t :=
    folds_string hprot _ 2 _ rfl ip hfits.ip (by cases ip <;> rfl)
  have hport : Folds (readCase prot (Peer.cases prot)) t
      (port.map fun v => .scalar prot 3 (.i32 v)).toList u :=
    folds_i32 hprot _ 3 _ rfl port (fun v => v) (by cases port <;> rfl)
  have hidc : Folds (readCase prot (Peer.cases prot)) u
      (idc.map fun v => .scalar prot 4 (.string v)).toList { u with idc := idc.or u.idc } :=
    folds_string hprot _ 4 _ rfl idc hfits.idc (by cases idc <;> rfl)
  exact ((hpeerid.append hip).append hport).append hidc

theorem Peer.carries_fields (p : Peer) :
    Carries prot (Peer.cases prot) (Peer.fields prot p) (Peer.fields prot p) := by
  apply carries_self
  obtain ⟨peerid, ip, port, idc⟩ := p
  cases peerid <;> cases ip <;> cases port <;> cases idc <;> rfl

end Peers

section Stats

def Stat.cases : List (Case τ Stat) :=
  [Case.of 1 .i64 prot.readI64 fun s v => { s with uploaded := some v },
   Case.of 2 .i64 prot.readI64 fun s v => { s with downloaded := some v },
   Case.of 3 .i64 prot.readI64 fun s v => { s with left := some v },
   Case.of 4 .i32 prot.readI32 fun s v => { s with status := some (statusOfCode v) }]

def Stat.read : Stat → List τ → Option (Stat × List τ) := readStruct prot (Stat.cases prot)

def Stat.fields (s : Stat) : List (WireField τ) :=
  (s.uploaded.map fun v => .scalar prot 1 (.i64 v)).toList ++
  (s.downloaded.map fun v => .scalar prot 2 (.i64 v)).toList ++
  (s.left.map fun v => .scalar prot 3 (.i64 v)).toList ++
  (s.status.map fun v => .scalar prot 4 (.i32 (statusCode v))).toList

def Stat.write (s : Stat) : List τ := writeStruct prot (Stat.fields prot s)

def Stat.onto (s old : Stat) : Stat where
  uploaded := s.uploaded.or old.uploaded
  downloaded := s.downloaded.or old.downloaded
  left := s.left.or old.left
  status := s.status.or old.status

/-- The status is one that its number stands for. -/
def Stat.Named (s : Stat) : Prop := ∀ status, s.status = some status →
  statusOfCode (statusCode status) = status

theorem Stat.onto_new (s : Stat) : Stat.onto s {} = s := by
  obtain ⟨uploaded, downloaded, left, status⟩ := s
  simp only [Stat.onto, Option.or_none]

variable {prot}

theorem Stat.folds (hprot : prot.Lawful) (s old : Stat) (hnamed : Stat.Named s) :
    Folds (readCase prot (Stat.cases prot)) old (Stat.fields prot s) (Stat.onto s old) := by
  obtain ⟨uploaded, downloaded, left, status⟩ := s
  let t : Stat := { old with uploaded := uploaded.or old.uploaded }
  let u : Stat := { t with downloaded := downloaded.or t.downloaded }
  let v : Stat := { u with left := left.or u.left }
  have huploaded : Folds (readCase prot (Stat.cases prot)) old
      (uploaded.map fun v => .scalar prot 1 (.i64 v)).toList t :=
    folds_i64 hprot _ 1 _ rfl uploaded (by cases uploaded <;> rfl)
  have hdownloaded : Folds (readCase prot (Stat.cases prot)) t
      (downloaded.map fun v => .scalar prot 2 (.i64 v)).toList u :=
    folds_i64 hprot _ 2 _ rfl downloaded (by cases downloaded <;> rfl)
  have hleft : Folds (readCase prot (Stat.cases prot)) u
      (left.map fun v => .scalar prot 3 (.i64 v)).toList v :=
    folds_i64 hprot _ 3 _ rfl left (by cases left <;> rfl)
  have hstatus : Folds (readCase prot (Stat.cases prot)) v
      (status.map fun v => .scalar prot 4 (.i32 (statusCode v))).toList
      { v with status := status.or v.status } := by
    refine folds_i32 hprot _ 4 _ rfl status statusCode ?_
    cases status with
    | none => rfl
    | some code =>
      simp only [Option.some_or, Option.elim_some]
      rw [hnamed code rfl]
  exact ((huploaded.append hdownloaded).append hleft).append hstatus

theorem Stat.carries_fields (s : Stat) :
    Carries prot (Stat.cases prot) (Stat.fields prot s) (Stat.fields prot s) := by
  apply carries_self
  obtain ⟨uploaded, downloaded, left, status⟩ := s
  cases uploaded <;> cases downloaded <;> cases left <;> cases status <;> rfl

end Stats

section Requests

def AnnounceRequest.cases : List (Case τ AnnounceRequest) :=
  [Case.of 1 .string prot.readString fun r v => { r with infohash := some v },
   Case.nested prot 2 (Peer.cases prot) (fun r => r.peer.getD {}) fun r v =>
     { r with peer := some v },
   Case.nested prot 3 (Stat.cases prot) (fun r => r.stat.getD {}) fun r v =>
     { r with stat := some v },
   Case.of 4 .bool prot.readBool fun r v => { r with isSeed := some v },
   Case.of 5 .i32 prot.readI32 fun r v => { r with numWant := some v }]

def AnnounceRequest.read : AnnounceRequest → List τ → Option (AnnounceRequest × List τ) :=
  readStruct prot (AnnounceRequest.cases prot)

/-- The fields of a request around those of its two structs. -/
def AnnounceRequest.fieldsWith (r : AnnounceRequest) (peer stat : Option (List (WireField τ))) :
    List (WireField τ) :=
  (r.infohash.map fun v => .scalar prot 1 (.string v)).toList ++
  (peer.map fun fields => .struct prot 2 fields).toList ++
  (stat.map fun fields => .struct prot 3 fields).toList ++
  (r.isSeed.map fun v => .scalar prot 4 (.bool v)).toList ++
  (r.numWant.map fun v => .scalar prot 5 (.i32 v)).toList

def AnnounceRequest.fields (r : AnnounceRequest) : List (WireField τ) :=
  AnnounceRequest.fieldsWith prot r (r.peer.map (Peer.fields prot)) (r.stat.map (Stat.fields prot))

def AnnounceRequest.write (r : AnnounceRequest) : List τ :=
  writeStruct prot (AnnounceRequest.fields prot r)

def AnnounceRequest.onto (r old : AnnounceRequest) : AnnounceRequest where
  infohash := r.infohash.or old.infohash
  peer := (r.peer.map fun p => Peer.onto p (old.peer.getD {})).or old.peer
  stat := (r.stat.map fun s => Stat.onto s (old.stat.getD {})).or old.stat
  isSeed := r.isSeed.or old.isSeed
  numWant := r.numWant.or old.numWant

/-- What a writer of a request has to keep to. -/
structure AnnounceRequest.Writable (r : AnnounceRequest) : Prop where
  infohash : TextFits prot r.infohash
  peer : ∀ p, r.peer = some p → Peer.Fits prot p
  stat : ∀ s, r.stat = some s → Stat.Named s

/-- The fields are those of the request, with others among them that no reader knows. -/
structure AnnounceRequest.OnWire (r : AnnounceRequest) (wire : List (WireField τ)) : Prop where
  writable : AnnounceRequest.Writable prot r
  fields : ∃ peer stat,
    Option.Rel (fun p fields => Carries prot (Peer.cases prot) fields (Peer.fields prot p))
      r.peer peer ∧
    Option.Rel (fun s fields => Carries prot (Stat.cases prot) fields (Stat.fields prot s))
      r.stat stat ∧
    Carries prot (AnnounceRequest.cases prot) wire (AnnounceRequest.fieldsWith prot r peer stat)

theorem AnnounceRequest.onto_new (r : AnnounceRequest) : AnnounceRequest.onto r {} = r := by
  obtain ⟨infohash, peer, stat, isSeed, numWant⟩ := r
  simp only [AnnounceRequest.onto, Option.or_none, Option.getD_none, Peer.onto_new,
    Stat.onto_new, Option.map_id']

variable {prot}

theorem AnnounceRequest.folds (hprot : prot.Lawful) (r old : AnnounceRequest)
    (wire : List (WireField τ)) (h : AnnounceRequest.OnWire prot r wire) :
    Folds (readCase prot (AnnounceRequest.cases prot)) old wire (AnnounceRequest.onto r old) := by
  obtain ⟨⟨hinfohash, hpeerFits, hnamed⟩, peerFields, statFields, hpeer, hstat, hwire⟩ := h
  apply folds_carries hprot _ hwire
  obtain ⟨infohash, peer, stat, isSeed, numWant⟩ := r
  let s : AnnounceRequest := { old with infohash := infohash.or old.infohash }
  let t : AnnounceRequest :=
    { s with peer := (peer.map fun p => Peer.onto p (s.peer.getD {})).or s.peer }
  let u : AnnounceRequest :=
    { t with stat := (stat.map fun p => Stat.onto p (t.stat.getD {})).or t.stat }
  let v : AnnounceRequest := { u with isSeed := isSeed.or u.isSeed }
  have hinfohash : Folds (readCase prot (AnnounceRequest.cases prot)) old
      (infohash.map fun v => .scalar prot 1 (.string v)).toList s :=
    folds_string hprot _ 1 _ rfl infohash hinfohash (by cases infohash <;> rfl)
  have hpeer : Folds (readCase prot (AnnounceRequest.cases prot)) s
      (peerFields.map fun fields => .struct prot 2 fields).toList t := by
    cases hpeer with
    | none => exact .nil s
    | @some p fields hp =>
      have hown := Peer.folds hprot p (s.peer.getD {}) (hpeerFits p rfl)
      have hfolds := folds_carries hprot _ hp hown
      exact folds_nested hprot _ 2 (Peer.cases prot) (fun r => r.peer.getD {})
        (fun r v => { r with peer := some v }) rfl (some fields) (fun fields => fields)
        (fun _ => Peer.onto p (s.peer.getD {})) (fun _ hv => Option.some.inj hv ▸ hfolds) rfl
  have hstat : Folds (readCase prot (AnnounceRequest.cases prot)) t
      (statFields.map fun fields => .struct prot 3 fields).toList u := by
    cases hstat with
    | none => exact .nil t
    | @some p fields hp =>
      have hown := Stat.folds hprot p (t.stat.getD {}) (hnamed p rfl)
      have hfolds := folds_carries hprot _ hp hown
      exact folds_nested hprot _ 3 (Stat.cases prot) (fun r => r.stat.getD {})
        (fun r v => { r with stat := some v }) rfl (some fields) (fun fields => fields)
        (fun _ => Stat.onto p (t.stat.getD {})) (fun _ hv => Option.some.inj hv ▸ hfolds) rfl
  have hisSeed : Folds (readCase prot (AnnounceRequest.cases prot)) u
      (isSeed.map fun v => .scalar prot 4 (.bool v)).toList v :=
    folds_bool hprot _ 4 _ rfl isSeed (by cases isSeed <;> rfl)
  have hnumWant : Folds (readCase prot (AnnounceRequest.cases prot)) v
      (numWant.map fun v => .scalar prot 5 (.i32 v)).toList
      { v with numWant := numWant.or v.numWant } :=
    folds_i32 hprot _ 5 _ rfl numWant (fun v => v) (by cases numWant <;> rfl)
  exact (((hinfohash.append hpeer).append hstat).append hisSeed).append hnumWant

theorem AnnounceRequest.carries_fieldsWith (r : AnnounceRequest)
    (peer stat : Option (List (WireField τ))) :
    Carries prot (AnnounceRequest.cases prot) (AnnounceRequest.fieldsWith prot r peer stat)
      (AnnounceRequest.fieldsWith prot r peer stat) := by
  apply carries_self
  obtain ⟨infohash, _, _, isSeed, numWant⟩ := r
  cases infohash <;> cases peer <;> cases stat <;> cases isSeed <;> cases numWant <;> rfl

theorem AnnounceRequest.onWire_fields (r : AnnounceRequest)
    (hwritable : AnnounceRequest.Writable prot r) :
    AnnounceRequest.OnWire prot r (AnnounceRequest.fields prot r) := by
  refine ⟨hwritable, r.peer.map (Peer.fields prot), r.stat.map (Stat.fields prot), ?_, ?_,
    AnnounceRequest.carries_fieldsWith r _ _⟩
  · cases r.peer with
    | none => exact .none
    | some p => exact .some (Peer.carries_fields p)
  · cases r.stat with
    | none => exact .none
    | some s => exact .some (Stat.carries_fields s)

/-- A request is read from what any version writes for it, whatever stands behind it: each
set field is stored and each other field keeps what the object held. -/
theorem AnnounceRequest.read_onWire (hprot : prot.Lawful) (r old : AnnounceRequest)
    (wire : List (WireField τ)) (h : AnnounceRequest.OnWire prot r wire) (rest : List τ) :
    AnnounceRequest.read prot old (writeStruct prot wire ++ rest) =
      some (AnnounceRequest.onto r old, rest) :=
  readStruct_folds hprot _ (AnnounceRequest.folds hprot r old wire h) rest

theorem AnnounceRequest.cases_sound (hprot : prot.Lawful) :
    ∀ c ∈ AnnounceRequest.cases prot, c.Sound prot := by
  have hpeer : ∀ c ∈ Peer.cases prot, c.Sound prot := by
    simp only [Peer.cases, List.forall_mem_cons, string_sound hprot, i32_sound hprot, true_and,
      List.not_mem_nil, false_implies, implies_true]
  have hstat : ∀ c ∈ Stat.cases prot, c.Sound prot := by
    simp only [Stat.cases, List.forall_mem_cons, i64_sound hprot, i32_sound hprot, true_and,
      List.not_mem_nil, false_implies, implies_true]
  simp only [AnnounceRequest.cases, List.forall_mem_cons, string_sound hprot, i32_sound hprot,
    bool_sound hprot, nested_sound hprot _ _ _ _ hpeer, nested_sound hprot _ _ _ _ hstat, true_and,
    List.not_mem_nil, false_implies, implies_true]

/-- No struct from any writer makes the reading of a request fail. -/
theorem AnnounceRequest.read_total (hprot : prot.Lawful) (fields : List (WireField τ))
    (hvalid : ∀ f ∈ fields, f.Valid prot) (old : AnnounceRequest) (rest : List τ) :
    ∃ r, AnnounceRequest.read prot old (writeStruct prot fields ++ rest) = some (r, rest) := by
  obtain ⟨r, hr⟩ :=
    folds_sound hprot _ (AnnounceRequest.cases_sound hprot) old fields hvalid
  exact ⟨r, readStruct_folds hprot _ hr rest⟩

end Requests

section Responses

/-- The type of the elements is not looked at. -/
def readPeers (ts : List τ) : Option (List Peer × List τ) := do
  let (list, ts) ← prot.readListBegin ts
  readTimes (fun peers ts =>
    (Peer.read prot {} ts).map fun after => (peers ++ [after.1], after.2)) list.2 [] ts

def AnnounceResponse.cases : List (Case τ AnnounceResponse) :=
  [Case.of 1 .i16 prot.readI16 fun r v => { r with ret := some v },
   Case.of 2 .string prot.readString fun r v => { r with failureReason := some v },
   Case.of 3 .i32 prot.readI32 fun r v => { r with minInterval := some v },
   Case.of 4 .bool prot.readBool fun r v => { r with haveSeed := some v },
   Case.of 5 .list (readPeers prot) fun r v => { r with peers := v }]

def AnnounceResponse.read : AnnounceResponse → List τ → Option (AnnounceResponse × List τ) :=
  readStruct prot (AnnounceResponse.cases prot)

/-- The list of peers is written even when it is empty. -/
def AnnounceResponse.fieldsWith (r : AnnounceResponse) (peers : List (List (WireField τ))) :
    List (WireField τ) :=
  (r.ret.map fun v => .scalar prot 1 (.i16 v)).toList ++
  (r.failureReason.map fun v => .scalar prot 2 (.string v)).toList ++
  (r.minInterval.map fun v => .scalar prot 3 (.i32 v)).toList ++
  (r.haveSeed.map fun v => .scalar prot 4 (.bool v)).toList ++
  [.structs prot 5 peers]

def AnnounceResponse.fields (r : AnnounceResponse) : List (WireField τ) :=
  AnnounceResponse.fieldsWith prot r (r.peers.map (Peer.fields prot))

def AnnounceResponse.write (r : AnnounceResponse) : List τ :=
  writeStruct prot (AnnounceResponse.fields prot r)

def AnnounceResponse.onto (r old : AnnounceResponse) : AnnounceResponse where
  ret := r.ret.or old.ret
  failureReason := r.failureReason.or old.failureReason
  minInterval := r.minInterval.or old.minInterval
  haveSeed := r.haveSeed.or old.haveSeed
  peers := r.peers

structure AnnounceResponse.Writable (r : AnnounceResponse) : Prop where
  failureReason : TextFits prot r.failureReason
  size : prot.Fits r.peers.length
  peers : ∀ p ∈ r.peers, Peer.Fits prot p

structure AnnounceResponse.OnWire (r : AnnounceResponse) (wire : List (WireField τ)) : Prop where
  writable : AnnounceResponse.Writable prot r
  fields : ∃ items : List (Peer × List (WireField τ)), items.map Prod.fst = r.peers ∧
    (∀ i ∈ items, Carries prot (Peer.cases prot) i.2 (Peer.fields prot i.1)) ∧
    Carries prot (AnnounceResponse.cases prot) wire
      (AnnounceResponse.fieldsWith prot r (items.map Prod.snd))

theorem AnnounceResponse.onto_new (r : AnnounceResponse) : AnnounceResponse.onto r {} = r := by
  obtain ⟨ret, failureReason, minInterval, haveSeed, peers⟩ := r
  simp only [AnnounceResponse.onto, Option.or_none]

variable {prot}

theorem readPeers_structs (hprot : prot.Lawful) (items : List (Peer × List (WireField τ)))
    (hitems : ∀ i ∈ items, Carries prot (Peer.cases prot) i.2 (Peer.fields prot i.1))
    (hsize : prot.Fits items.length) (hpeers : ∀ i ∈ items, Peer.Fits prot i.1) (rest : List τ) :
    readPeers prot ((WireField.structs prot 5 (items.map Prod.snd)).bytes ++ rest) =
      some (items.map Prod.fst, rest) := by
  let readOne (peers : List Peer) (ts : List τ) : Option (List Peer × List τ) :=
    (Peer.read prot {} ts).map fun after => (peers ++ [after.1], after.2)
  have hone : ∀ i ∈ items, ∀ peers,
      Consumes readOne (writeStruct prot i.2) peers (peers ++ [i.1]) := by
    intro i hi peers rest
    have hfolds := folds_carries hprot _ (hitems i hi) (Peer.folds hprot i.1 {} (hpeers i hi))
    rw [Peer.onto_new] at hfolds
    have hpeer : Peer.read prot {} (writeStruct prot i.2 ++ rest) = some (i.1, rest) :=
      readStruct_folds hprot _ hfolds rest
    simp only [readOne, hpeer, Option.map_some]
  have hread := readTimes_consumes (fun i : Peer × List (WireField τ) => writeStruct prot i.2)
    (fun peers i => peers ++ [i.1]) items hone [] rest
  have hstate : items.foldl (fun peers i => peers ++ [i.1]) [] = items.map Prod.fst := by
    rw [List.foldl_append_eq_append, List.nil_append, ← List.flatMap_def, List.map_eq_flatMap]
  rw [hstate, List.flatMap_def] at hread
  have hbytes : (WireField.structs prot 5 (items.map Prod.snd)).bytes =
      prot.writeListBegin .struct items.length ++
        (items.map fun i => writeStruct prot i.2).flatten := by
    simp only [WireField.structs, List.length_map, List.map_map]
    rfl
  rw [hbytes, List.append_assoc]
  simp only [readPeers, hprot.readListBegin _ _ _ hsize, Option.bind_eq_bind, Option.bind_some]
  exact hread

theorem AnnounceResponse.folds (hprot : prot.Lawful) (r old : AnnounceResponse)
    (wire : List (WireField τ)) (h : AnnounceResponse.OnWire prot r wire) :
    Folds (readCase prot (AnnounceResponse.cases prot)) old wire
      (AnnounceResponse.onto r old) := by
  obtain ⟨⟨hreasonFits, hsize, hfits⟩, items, hpeers, hitems, hwire⟩ := h
  apply folds_carries hprot _ hwire
  obtain ⟨ret, failureReason, minInterval, haveSeed, peers⟩ := r
  subst hpeers
  let s : AnnounceResponse := { old with ret := ret.or old.ret }
  let t : AnnounceResponse := { s with failureReason := failureReason.or s.failureReason }
  let u : AnnounceResponse := { t with minInterval := minInterval.or t.minInterval }
  let v : AnnounceResponse := { u with haveSeed := haveSeed.or u.haveSeed }
  have hret : Folds (readCase prot (AnnounceResponse.cases prot)) old
      (ret.map fun v => .scalar prot 1 (.i16 v)).toList s :=
    folds_i16 hprot _ 1 _ rfl ret (by cases ret <;> rfl)
  have hreason : Folds (readCase prot (AnnounceResponse.cases prot)) s
      (failureReason.map fun v => .scalar prot 2 (.string v)).toList t :=
    folds_string hprot _ 2 _ rfl failureReason hreasonFits (by cases failureReason <;> rfl)
  have hinterval : Folds (readCase prot (AnnounceResponse.cases prot)) t
      (minInterval.map fun v => .scalar prot 3 (.i32 v)).toList u :=
    folds_i32 hprot _ 3 _ rfl minInterval (fun v => v) (by cases minInterval <;> rfl)
  have hseed : Folds (readCase prot (AnnounceResponse.cases prot)) u
      (haveSeed.map fun v => .scalar prot 4 (.bool v)).toList v :=
    folds_bool hprot _ 4 _ rfl haveSeed (by cases haveSeed <;> rfl)
  have hlist : Folds (readCase prot (AnnounceResponse.cases prot)) v
      [.structs prot 5 (items.map Prod.snd)] { v with peers := items.map Prod.fst } := by
    have hread := readPeers_structs hprot items hitems (by simpa using hsize) fun i hi =>
      hfits i.1 (List.mem_map_of_mem hi)
    exact folds_of _ 5 .list (readPeers prot) _ rfl (some ())
      (fun _ => (WireField.structs prot 5 (items.map Prod.snd)).bytes) (fun _ => items.map Prod.fst)
      (fun _ _ => hread) rfl
  exact (((hret.append hreason).append hinterval).append hseed).append hlist

theorem AnnounceResponse.onWire_fields (r : AnnounceResponse)
    (hwritable : AnnounceResponse.Writable prot r) :
    AnnounceResponse.OnWire prot r (AnnounceResponse.fields prot r) := by
  refine ⟨hwritable, r.peers.map fun p => (p, Peer.fields prot p), ?_, ?_, ?_⟩
  · rw [List.map_map]
    exact List.map_id _
  · intro i hi
    obtain ⟨p, _, rfl⟩ := List.mem_map.mp hi
    exact Peer.carries_fields p
  · rw [List.map_map]
    apply carries_self
    obtain ⟨ret, failureReason, minInterval, haveSeed, peers⟩ := r
    cases ret <;> cases failureReason <;> cases minInterval <;> cases haveSeed <;> rfl

/-- As for a request; the peers are those of the message alone. -/
theorem AnnounceResponse.read_onWire (hprot : prot.Lawful) (r old : AnnounceResponse)
    (wire : List (WireField τ)) (h : AnnounceResponse.OnWire prot r wire) (rest : List τ) :
    AnnounceResponse.read prot old (writeStruct prot wire ++ rest) =
      some (AnnounceResponse.onto r old, rest) :=
  readStruct_folds hprot _ (AnnounceResponse.folds hprot r old wire h) rest

/-- Both messages are read back from what any version of the service writes, over any object
and before anything else in the stream, and no struct at all is refused as a request. -/
theorem messages_read_back (hprot : prot.Lawful) :
    (∀ (r old : AnnounceRequest) (wire : List (WireField τ)) (rest : List τ),
      AnnounceRequest.OnWire prot r wire →
        AnnounceRequest.read prot old (writeStruct prot wire ++ rest) =
          some (AnnounceRequest.onto r old, rest)) ∧
    (∀ (r old : AnnounceResponse) (wire : List (WireField τ)) (rest : List τ),
      AnnounceResponse.OnWire prot r wire →
        AnnounceResponse.read prot old (writeStruct prot wire ++ rest) =
          some (AnnounceResponse.onto r old, rest)) ∧
    ∀ (fields : List (WireField τ)) (old : AnnounceRequest) (rest : List τ),
      (∀ f ∈ fields, f.Valid prot) →
        ∃ r, AnnounceRequest.read prot old (writeStruct prot fields ++ rest) = some (r, rest) :=
  ⟨fun r old wire rest h => AnnounceRequest.read_onWire hprot r old wire h rest,
    fun r old wire rest h => AnnounceResponse.read_onWire hprot r old wire h rest,
    fun fields old rest h => AnnounceRequest.read_total hprot fields h old rest⟩

/-- A newer version adds a field to the request and one to its peer. -/
theorem messages_read_back_sample :
    AnnounceRequest.read TokenStreams.tokens { isSeed := some true }
      (writeStruct TokenStreams.tokens [.scalar TokenStreams.tokens 9 (.i64 7),
        .scalar TokenStreams.tokens 1 (.string [5]), .struct TokenStreams.tokens 2
          [.scalar TokenStreams.tokens 1 (.string [6]), .struct TokenStreams.tokens 8 []]]) =
    some ({ infohash := some [5], peer := some { peerid := some [6] }, isSeed := some true },
      []) := by
  have hwritable : AnnounceRequest.Writable TokenStreams.tokens
      { infohash := some [5], peer := some { peerid := some [6] } } :=
    ⟨fun _ _ => trivial, fun _ _ => ⟨fun _ _ => trivial, fun _ _ => trivial, fun _ _ => trivial⟩,
      by simp⟩
  have hpeer : Carries TokenStreams.tokens (Peer.cases TokenStreams.tokens)
      [.scalar TokenStreams.tokens 1 (.string [6]), .struct TokenStreams.tokens 8 []]
      (Peer.fields TokenStreams.tokens { peerid := some [6] }) := by
    refine ⟨rfl, List.forall_mem_cons.mpr ⟨?_, List.forall_mem_singleton.mpr fun _ => ?_⟩⟩
    · intro hunknown
      exact absurd hunknown (by decide)
    · exact .struct [] (by simp)
  have hwire : AnnounceRequest.OnWire TokenStreams.tokens
      { infohash := some [5], peer := some { peerid := some [6] } }
      [.scalar TokenStreams.tokens 9 (.i64 7),
        .scalar TokenStreams.tokens 1 (.string [5]), .struct TokenStreams.tokens 2
          [.scalar TokenStreams.tokens 1 (.string [6]), .struct TokenStreams.tokens 8 []]] := by
    refine ⟨hwritable, some _, none, .some hpeer, .none, rfl, List.forall_mem_cons.mpr
      ⟨fun _ => .scalar (.i64 7) trivial, List.forall_mem_cons.mpr ⟨?_, ?_⟩⟩⟩
    · intro hunknown
      exact absurd hunknown (by decide)
    · refine List.forall_mem_singleton.mpr fun hunknown => ?_
      exact absurd hunknown (by decide)
  exact (messages_read_back TokenStreams.tokens_lawful).1 _ { isSeed := some true } _ [] hwire

end Responses

section Orders

def ControlByInfohashRequest.cases : List (Case τ ControlByInfohashRequest) :=
  [Case.of 1 .string prot.readString fun r v => { r with ip := some v },
   Case.of 2 .string prot.readString fun r v => { r with token := some v },
   Case.of 3 .string prot.readString fun r v => { r with infohash := some v }]

def ControlByInfohashRequest.fields (r : ControlByInfohashRequest) : List (WireField τ) :=
  (r.ip.map fun v => .scalar prot 1 (.string v)).toList ++
  (r.token.map fun v => .scalar prot 2 (.string v)).toList ++
  (r.infohash.map fun v => .scalar prot 3 (.string v)).toList

def ControlByInfohashRequest.onto (r old : ControlByInfohashRequest) :
    ControlByInfohashRequest where
  ip := r.ip.or old.ip
  token := r.token.or old.token
  infohash := r.infohash.or old.infohash

structure ControlByInfohashRequest.Writable (r : ControlByInfohashRequest) : Prop where
  ip : TextFits prot r.ip
  token : TextFits prot r.token
  infohash : TextFits prot r.infohash

theorem ControlByInfohashRequest.onto_new (r : ControlByInfohashRequest) :
    ControlByInfohashRequest.onto r {} = r := by
  obtain ⟨ip, token, infohash⟩ := r
  simp only [ControlByInfohashRequest.onto, Option.or_none]

def BaseResponse.cases : List (Case τ BaseResponse) :=
  [Case.of 1 .i16 prot.readI16 fun r v => { r with retval := some v },
   Case.of 2 .string prot.readString fun r v => { r with message := some v }]

def BaseResponse.fields (r : BaseResponse) : List (WireField τ) :=
  (r.retval.map fun v => .scalar prot 1 (.i16 v)).toList ++
  (r.message.map fun v => .scalar prot 2 (.string v)).toList

def BaseResponse.onto (r old : BaseResponse) : BaseResponse where
  retval := r.retval.or old.retval
  message := r.message.or old.message

theorem BaseResponse.onto_new (r : BaseResponse) : BaseResponse.onto r {} = r := by
  obtain ⟨retval, message⟩ := r
  simp only [BaseResponse.onto, Option.or_none]

variable {prot}

theorem ControlByInfohashRequest.folds (hprot : prot.Lawful) (r old : ControlByInfohashRequest)
    (hwritable : ControlByInfohashRequest.Writable prot r) :
    Folds (readCase prot (ControlByInfohashRequest.cases prot)) old
      (ControlByInfohashRequest.fields prot r) (ControlByInfohashRequest.onto r old) := by
  obtain ⟨ip, token, infohash⟩ := r
  let s : ControlByInfohashRequest := { old with ip := ip.or old.ip }
  let t : ControlByInfohashRequest := { s with token := token.or s.token }
  have hip : Folds (readCase prot (ControlByInfohashRequest.cases prot)) old
      (ip.map fun v => .scalar prot 1 (.string v)).toList s :=
    folds_string hprot _ 1 _ rfl ip hwritable.ip (by cases ip <;> rfl)
  have htoken : Folds (readCase prot (ControlByInfohashRequest.cases prot)) s
      (token.map fun v => .scalar prot 2 (.string v)).toList t :=
    folds_string hprot _ 2 _ rfl token hwritable.token (by cases token <;> rfl)
  have hinfohash : Folds (readCase prot (ControlByInfohashRequest.cases prot)) t
      (infohash.map fun v => .scalar prot 3 (.string v)).toList
      { t with infohash := infohash.or t.infohash } :=
    folds_string hprot _ 3 _ rfl infohash hwritable.infohash (by cases infohash <;> rfl)
  exact (hip.append htoken).append hinfohash

theorem BaseResponse.folds (hprot : prot.Lawful) (r old : BaseResponse)
    (hmessage : TextFits prot r.message) :
    Folds (readCase prot (BaseResponse.cases prot)) old (BaseResponse.fields prot r)
      (BaseResponse.onto r old) := by
  obtain ⟨retval, message⟩ := r
  let s : BaseResponse := { old with retval := retval.or old.retval }
  have hretval : Folds (readCase prot (BaseResponse.cases prot)) old
      (retval.map fun v => .scalar prot 1 (.i16 v)).toList s :=
    folds_i16 hprot _ 1 _ rfl retval (by cases retval <;> rfl)
  have hmessage : Folds (readCase prot (BaseResponse.cases prot)) s
      (message.map fun v => .scalar prot 2 (.string v)).toList
      { s with message := message.or s.message } :=
    folds_string hprot _ 2 _ rfl message hmessage (by cases message <;> rfl)
  exact hretval.append hmessage

end Orders

end Gingko.AnnounceMessages
