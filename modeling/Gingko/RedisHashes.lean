import Gingko.CommandTexts
import Gingko.TrackerRings

/-!
The redis servers as the commands of the tracker see them: each holds hashes of
fields and values. A server gets the arguments that the client library takes a text
for, and refuses a verb with another number of arguments. Every command is applied in
the order of sending, and keys do not expire. The key of a command selects its server
by its checksum.
-/
namespace Gingko.RedisHashes

open KeyedMaps Base64Codec PeerRecords PeerUpdates RedisCommandCreator TrackerState CommandTexts

abbrev RedisServer := Dict ByteString (Dict ByteString ByteString)

def executeArgv (server : RedisServer) : List ByteString → RedisServer
  | [verb, key, field, value] =>
    if verb = ascii "hset" then
      server.insert key (((server.lookup key).getD ∅).insert field value)
    else server
  | [verb, key, field] =>
    if verb = ascii "hdel" then server.insert key (((server.lookup key).getD ∅).erase field)
    else server
  | _ => server

def execute (split : ByteString → Option (List ByteString)) (server : RedisServer)
    (command : ByteString) : RedisServer :=
  match split (cString command) with
  | none => server
  | some argv => executeArgv server argv

def hget (server : RedisServer) (key field : ByteString) : Option ByteString :=
  ((server.lookup key).getD ∅).lookup field

theorem hget_insert (server : RedisServer) (key : ByteString) (fields : Dict ByteString ByteString)
    (k f : ByteString) :
    hget (server.insert key fields) k f = if k = key then fields.lookup f else hget server k f := by
  unfold hget
  split
  · next heq => rw [heq, AList.lookup_insert, Option.getD_some]
  · next hne => rw [AList.lookup_insert_ne hne]

/-- One field of one hash is written. -/
theorem hget_written (server : RedisServer) (key field : ByteString)
    (fields : Dict ByteString ByteString) (written : Option ByteString)
    (hfields : ∀ f, fields.lookup f = if f = field then written else hget server key f)
    (k f : ByteString) :
    hget (server.insert key fields) k f =
      if k = key ∧ f = field then written else hget server k f := by
  rw [hget_insert, hfields]
  by_cases hk : k = key
  · by_cases hf : f = field <;> simp [hk, hf]
  · simp [hk]

theorem lookup_insert_ite (fields : Dict ByteString ByteString) (field value f : ByteString) :
    (fields.insert field value).lookup f = if f = field then some value else fields.lookup f := by
  split
  · next heq => rw [heq, AList.lookup_insert]
  · next hne => exact AList.lookup_insert_ne hne

theorem lookup_erase_ite (fields : Dict ByteString ByteString) (field f : ByteString) :
    (fields.erase field).lookup f = if f = field then none else fields.lookup f := by
  split
  · next heq => rw [heq, AList.lookup_erase]
  · next hne => exact AList.lookup_erase_ne hne

abbrev RedisServers := ℕ → RedisServer

/-- Master and slave of an index are sent the same commands, so one of them stands for both. -/
def getRedisIndex (redisNum : ℕ) (key : ByteString) : ℕ :=
  (TrackerRings.hashCrc32 key).toNat % redisNum

section Pipeline

variable (split : ByteString → Option (List ByteString)) (redisNum : ℕ)

def pipelineCommand (servers : RedisServers) (c : RedisCommand) : RedisServers :=
  Function.update servers (getRedisIndex redisNum c.redisKey)
    (execute split (servers (getRedisIndex redisNum c.redisKey)) c.command)

def pipelineAll (servers : RedisServers) (commands : List RedisCommand) : RedisServers :=
  commands.foldl (pipelineCommand split redisNum) servers

end Pipeline

/-- The fields of the hash that holds the published peers of an infohash. -/
def publishedFields (redisNum : ℕ) (servers : RedisServers) (base64InfoHash : ByteString) :
    Set ByteString :=
  {field | (hget (servers (getRedisIndex redisNum base64InfoHash))
    (constructInfoHashKey base64InfoHash) field).isSome}

section Execute

variable (split : ByteString → Option (List ByteString)) (hsplit : SplitsAtSpaces split)
  (input : Announce) (server : RedisServer)

include hsplit in
/-- A peer without an identifier leaves the command with an argument too few. -/
theorem execute_hset (stored : ByteString) (hstored : stored ≠ []) :
    execute split server (hset (infoHashKey input.1.base64InfoHash)
        (peerKey input.1.base64PeerId) (base64Text stored)) =
      if input.1.getPeerId = [] then server
      else server.insert (infoHashKey input.1.base64InfoHash)
        (((server.lookup (infoHashKey input.1.base64InfoHash)).getD ∅).insert
          (peerKey input.1.base64PeerId) (base64Text stored)) := by
  have hplain := (plain_arguments input stored 0).1
  have hvalue : base64Text stored ≠ [] := (base64Text_eq_nil _).not.mpr hstored
  have hverbs : ascii "hset" ≠ [] ∧ ascii "hset" ≠ ascii "hdel" := by decide
  have hkey : ascii "info_hash_key_" ++ base64Text input.1.getInfoHash ≠ [] := by
    simp [show ascii "info_hash_key_" ≠ [] by decide]
  unfold execute
  rw [hset_joined, split_joined split hsplit _ (by simp) hplain, infoHashKey_announce,
    peerKey_announce]
  by_cases hpeer : input.1.getPeerId = []
  · have hfield := (base64Text_eq_nil _).mpr hpeer
    rw [if_pos hpeer, hfield]
    simp [hvalue, hverbs, hkey, executeArgv]
  · have hfield := (base64Text_eq_nil _).not.mpr hpeer
    simp [hpeer, hfield, hvalue, hverbs, hkey, executeArgv]

include hsplit in
theorem execute_hdel :
    execute split server (hdel (infoHashKey input.1.base64InfoHash)
        (peerKey input.1.base64PeerId)) =
      if input.1.getPeerId = [] then server
      else server.insert (infoHashKey input.1.base64InfoHash)
        (((server.lookup (infoHashKey input.1.base64InfoHash)).getD ∅).erase
          (peerKey input.1.base64PeerId)) := by
  have hplain := (plain_arguments input [] 0).2.1
  have hverb : ascii "hdel" ≠ [] := by decide
  have hkey : ascii "info_hash_key_" ++ base64Text input.1.getInfoHash ≠ [] := by
    simp [show ascii "info_hash_key_" ≠ [] by decide]
  unfold execute
  rw [hdel_joined, split_joined split hsplit _ (by simp) hplain, infoHashKey_announce,
    peerKey_announce]
  by_cases hpeer : input.1.getPeerId = []
  · have hfield := (base64Text_eq_nil _).mpr hpeer
    rw [if_pos hpeer, hfield]
    simp [hverb, hkey, executeArgv]
  · have hfield := (base64Text_eq_nil _).not.mpr hpeer
    simp [hpeer, hfield, hverb, hkey, executeArgv]

include hsplit in
/-- The hash itself does not depend on its expiry time. -/
theorem execute_expire (expireTime : UInt32) :
    execute split server (expire (infoHashKey input.1.base64InfoHash) expireTime) = server := by
  have hplain := (plain_arguments input [] expireTime).2.2.1
  have hverbs : ascii "EXPIRE" ≠ [] ∧ ascii "EXPIRE" ≠ ascii "hdel" := by decide
  have hkey : ascii "info_hash_key_" ++ base64Text input.1.getInfoHash ≠ [] := by
    simp [show ascii "info_hash_key_" ≠ [] by decide]
  have hnumber : ascii expireTime.toNat.repr ≠ [] := number_ne_nil expireTime.toNat
  unfold execute
  rw [expire_joined, split_joined split hsplit _ (by simp) hplain]
  simp [hverbs, hkey, hnumber, executeArgv]

end Execute

section Published

variable (split : ByteString → Option (List ByteString)) (redisNum : ℕ) (servers : RedisServers)
  (base64InfoHash : ByteString)

theorem constructInfoHashKey_inj (a b : ByteString) :
    constructInfoHashKey a = constructInfoHashKey b ↔ a = b :=
  List.append_right_inj _

/-- A command that writes one field of the hash of its infohash changes no other field. -/
theorem mem_publishedFields_pipeline (redisKey command field : ByteString)
    (written : Option ByteString)
    (hwrite : ∀ server k f, hget (execute split server command) k f =
      if k = constructInfoHashKey redisKey ∧ f = field then written else hget server k f)
    (f : ByteString) :
    f ∈ publishedFields redisNum (pipelineCommand split redisNum servers ⟨redisKey, command⟩)
        base64InfoHash ↔
      if base64InfoHash = redisKey ∧ f = field then written.isSome = true
      else f ∈ publishedFields redisNum servers base64InfoHash := by
  unfold publishedFields pipelineCommand
  rw [Set.mem_ofPred_eq, Set.mem_ofPred_eq]
  by_cases hindex : getRedisIndex redisNum base64InfoHash = getRedisIndex redisNum redisKey
  · rw [hindex, Function.update_self, hwrite]
    simp only [constructInfoHashKey_inj]
    split <;> rfl
  · have hne : ¬ (base64InfoHash = redisKey ∧ f = field) := fun h => hindex (h.1 ▸ rfl)
    rw [Function.update_of_ne hindex, if_neg hne]

theorem pipelineCommand_refused (c : RedisCommand)
    (hrefused : ∀ server, execute split server c.command = server) :
    pipelineCommand split redisNum servers c = servers := by
  unfold pipelineCommand
  rw [hrefused, Function.update_eq_self]

variable (hsplit : SplitsAtSpaces split) (input : Announce)

theorem constructInfoHashKey_announce :
    constructInfoHashKey input.1.base64InfoHash = infoHashKey input.1.base64InfoHash := by
  rw [constructInfoHashKey, infoHashKey_announce, input.2.1.infoHashKey]

theorem peerKey_eq : peerKey input.1.base64PeerId = input.1.base64PeerId := by
  rw [peerKey_announce, input.2.1.peerIdKey]

include hsplit

/-- Publication adds the peer key to the fields of its infohash, if there is one. -/
theorem publishedFields_setPeerRemote (conf : TrackerConf)
    (hserialize : ∀ p, conf.codec.serialize p ≠ []) :
    publishedFields redisNum (pipelineAll split redisNum servers (setPeerRemote conf input.1).2)
        base64InfoHash =
      if base64InfoHash = input.1.base64InfoHash ∧ input.1.getPeerId ≠ [] then
        insert input.1.base64PeerId (publishedFields redisNum servers base64InfoHash)
      else publishedFields redisNum servers base64InfoHash := by
  have hstored : input.1.constructStringByPeerInfo conf.codec ≠ [] := hserialize _
  have hset := fun server => execute_hset split hsplit input server _ hstored
  rw [(queued_commands input conf).1]
  simp only [pipelineAll, List.foldl_cons, List.foldl_nil]
  rw [pipelineCommand_refused split redisNum _ ⟨_, expire _ _⟩
    (fun server => execute_expire split hsplit input server _)]
  by_cases hpeer : input.1.getPeerId = []
  · rw [pipelineCommand_refused _ _ _ _ (fun server => (hset server).trans (if_pos hpeer)),
      if_neg (fun h => h.2 hpeer)]
  · ext f
    rw [mem_publishedFields_pipeline split redisNum servers base64InfoHash _ _
      input.1.base64PeerId (some (base64Text (input.1.constructStringByPeerInfo conf.codec)))]
    · by_cases hhash : base64InfoHash = input.1.base64InfoHash
      · by_cases hf : f = input.1.base64PeerId <;> simp [hhash, hf, hpeer]
      · simp [hhash]
    · intro server k f
      rw [hset, if_neg hpeer, constructInfoHashKey_announce, peerKey_eq]
      exact hget_written server _ _ _ _ (fun f => lookup_insert_ite _ _ _ f) k f

/-- Withdrawal takes it away again. -/
theorem publishedFields_deletePeerRemote :
    publishedFields redisNum (pipelineAll split redisNum servers (deletePeerRemote input.1).2)
        base64InfoHash =
      if base64InfoHash = input.1.base64InfoHash ∧ input.1.getPeerId ≠ [] then
        publishedFields redisNum servers base64InfoHash \ {input.1.base64PeerId}
      else publishedFields redisNum servers base64InfoHash := by
  have hdel := fun server => execute_hdel split hsplit input server
  rw [(queued_commands input TrackerState.defaultConf).2]
  simp only [pipelineAll, List.foldl_cons, List.foldl_nil]
  by_cases hpeer : input.1.getPeerId = []
  · rw [pipelineCommand_refused _ _ _ _ (fun server => (hdel server).trans (if_pos hpeer)),
      if_neg (fun h => h.2 hpeer)]
  · ext f
    rw [mem_publishedFields_pipeline split redisNum servers base64InfoHash _ _
      input.1.base64PeerId none]
    · by_cases hhash : base64InfoHash = input.1.base64InfoHash
      · by_cases hf : f = input.1.base64PeerId <;> simp [hhash, hf, hpeer]
      · simp [hhash]
    · intro server k f
      rw [hdel, if_neg hpeer, constructInfoHashKey_announce, peerKey_eq]
      exact hget_written server _ _ _ _ (fun f => lookup_erase_ite _ _ f) k f

end Published
end Gingko.RedisHashes
