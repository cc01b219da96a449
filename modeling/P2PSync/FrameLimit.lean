import P2PSync.Answers
import P2PSync.Framing
import P2PSync.Messages

/-! Whether what the coordinator answers fits into a frame. Nothing limits a message
when it is written; both readers limit it to one mebibyte. -/
namespace P2PSync

open Stream (Answer readFull header headerValue frame Moves)

/-! The requests and what is passed to the writer for them. -/

inductive Request where
  | repoList
  | repoStatus (repoID : String)
  | file (peerID : String) (payload : FileRequestPayload)

inductive Outgoing where
  | repoListResponse (repos : List Repository)
  | repoStatusResponse (repoID : String) (files : List FileMetadata)
  | fileResponse (payload : FileResponsePayload)

def DB.listRepositories (db : DB) : List Repository :=
  (db.repositories.entries.map Sigma.snd).insertionSort (fun a b => a.createdAt ≤ b.createdAt)

def Output.fileResponse? : Output → Option Outgoing
  | .sendToPeer _ (.fileResponse payload) => some (.fileResponse payload)
  | _ => none

def answers (sc : SyncCoordinator) (env : Env) : Request → List Outgoing
  | .repoList => [.repoListResponse sc.db.listRepositories]
  | .repoStatus repoID => [.repoStatusResponse repoID (sc.db.listByRepository repoID false)]
  | .file peerID payload =>
    (handleFileRequest sc env peerID payload).out.filterMap Output.fileResponse?

namespace Outgoing

def repoInfo (r : Repository) : List UInt8 :=
  Json.object [("id", Json.string r.id), ("path", Json.string r.localPath)]

def fileInfo (m : FileMetadata) : List UInt8 :=
  Json.object [("path", Json.string m.filepath), ("hash", Json.string m.hash),
    ("size", Json.int m.size), ("version", Json.int m.version),
    ("modified_time", Json.int m.localLastModified)]

def optionalText (key text : String) : List (String × List UInt8) :=
  if text = "" then [] else [(key, Json.string text)]

def optionalInt (key : String) (n : Int) : List (String × List UInt8) :=
  if n = 0 then [] else [(key, Json.int n)]

/-- The keys of a map are sorted, the fields of a structure are not. -/
def payload : Outgoing → List UInt8
  | .repoListResponse repos => Json.object [("repos", Json.array (repos.map repoInfo))]
  | .repoStatusResponse repoID files =>
    Json.object [("files", Json.array (files.map fileInfo)), ("repo_id", Json.string repoID)]
  | .fileResponse p =>
    Json.object (("path", Json.string p.path) :: ("hash", Json.string p.hash) ::
      (optionalText "content_base64" p.contentBase64 ++ optionalText "file_content" p.fileContent ++
        optionalInt "transfer_port" p.transferPort ++ optionalText "error" p.error))

def type : Outgoing → String
  | .repoListResponse _ => "repo_list_response"
  | .repoStatusResponse _ _ => "repo_status_response"
  | .fileResponse _ => "file_response"

def message (now : Int) (o : Outgoing) : Message := ⟨"1.0", o.type, "", now, "go", o.payload⟩

/-! The number of bytes. -/

def repoInfoSize (r : Repository) : Nat := 15 + Json.stringSize r.id + Json.stringSize r.localPath

def fileInfoSize (m : FileMetadata) : Nat :=
  53 + Json.stringSize m.filepath + Json.stringSize m.hash + Json.intSize m.size +
    Json.intSize m.version + Json.intSize m.localLastModified

def optionalTextSize (key text : String) : Nat :=
  if text = "" then 0 else Json.stringSize key + 2 + Json.stringSize text

def optionalIntSize (key : String) (n : Int) : Nat :=
  if n = 0 then 0 else Json.stringSize key + 2 + Json.intSize n

def payloadSize : Outgoing → Nat
  | .repoListResponse repos => 10 + Json.listSize repoInfoSize repos
  | .repoStatusResponse repoID files =>
    21 + Json.listSize fileInfoSize files + Json.stringSize repoID
  | .fileResponse p =>
    17 + Json.stringSize p.path + Json.stringSize p.hash +
      optionalTextSize "content_base64" p.contentBase64 +
      optionalTextSize "file_content" p.fileContent +
      optionalIntSize "transfer_port" p.transferPort + optionalTextSize "error" p.error

def size (now : Int) (o : Outgoing) : Nat :=
  71 + Json.stringSize o.type + Json.intSize now + o.payloadSize

theorem length_repoInfo (r : Repository) : (repoInfo r).length = repoInfoSize r := by
  have id : Json.stringSize "id" = 4 := by decide
  have path : Json.stringSize "path" = 6 := by decide
  rw [repoInfo, Json.length_object]
  simp only [List.map_cons, List.map_nil, Json.spaced_field, Json.spaced_nil, Json.length_string,
    id, path, repoInfoSize]
  omega

theorem length_fileInfo (m : FileMetadata) : (fileInfo m).length = fileInfoSize m := by
  have path : Json.stringSize "path" = 6 := by decide
  have hash : Json.stringSize "hash" = 6 := by decide
  have size : Json.stringSize "size" = 6 := by decide
  have version : Json.stringSize "version" = 9 := by decide
  have modified : Json.stringSize "modified_time" = 15 := by decide
  rw [fileInfo, Json.length_object]
  simp only [List.map_cons, List.map_nil, Json.spaced_field, Json.spaced_nil, Json.length_string,
    Json.length_int, path, hash, size, version, modified, fileInfoSize]
  omega

theorem spaced_optionalText (key text : String) :
    Json.spaced ((optionalText key text).map Json.field) = optionalTextSize key text := by
  unfold optionalText optionalTextSize
  split
  · rfl
  · rw [List.map_cons, List.map_nil, Json.spaced_field, Json.length_string, Json.spaced_nil]
    rfl

theorem spaced_optionalInt (key : String) (n : Int) :
    Json.spaced ((optionalInt key n).map Json.field) = optionalIntSize key n := by
  unfold optionalInt optionalIntSize
  split
  · rfl
  · rw [List.map_cons, List.map_nil, Json.spaced_field, Json.length_int, Json.spaced_nil]
    rfl

theorem length_payload (o : Outgoing) : o.payload.length = o.payloadSize := by
  have path : Json.stringSize "path" = 6 := by decide
  have hash : Json.stringSize "hash" = 6 := by decide
  cases o with
  | repoListResponse repos =>
    have key : Json.stringSize "repos" = 7 := by decide
    rw [payload, Json.length_object]
    simp only [List.map_cons, List.map_nil, Json.spaced_field, Json.spaced_nil,
      Json.length_array_map length_repoInfo, key, payloadSize]
    omega
  | repoStatusResponse repoID files =>
    have key : Json.stringSize "files" = 7 := by decide
    have id : Json.stringSize "repo_id" = 9 := by decide
    rw [payload, Json.length_object]
    simp only [List.map_cons, List.map_nil, Json.spaced_field, Json.spaced_nil, Json.length_string,
      Json.length_array_map length_fileInfo, key, id, payloadSize]
    omega
  | fileResponse p =>
    rw [payload, Json.length_object]
    simp only [List.map_cons, List.map_append, Json.spaced_field, Json.spaced_append,
      Json.length_string, spaced_optionalText, spaced_optionalInt, path, hash, payloadSize]
    omega

theorem length_text (now : Int) (o : Outgoing) : (o.message now).text.length = o.size now := by
  have keys : Json.stringSize "version" = 9 ∧ Json.stringSize "type" = 6 ∧
      Json.stringSize "id" = 4 ∧ Json.stringSize "timestamp" = 11 ∧
      Json.stringSize "source" = 8 ∧ Json.stringSize "payload" = 9 := by decide
  have values : Json.stringSize "1.0" = 5 ∧ Json.stringSize "" = 2 ∧ Json.stringSize "go" = 4 := by
    decide
  obtain ⟨version, type, id, timestamp, source, payload⟩ := keys
  obtain ⟨one, none, go⟩ := values
  rw [Message.text, Json.length_object]
  simp only [message, List.map_cons, List.map_nil, Json.spaced_field, Json.spaced_nil,
    Json.length_string, Json.length_int, length_payload, version, type, id, timestamp, source,
    payload, one, none, go, size]
  omega

theorem type_ne_empty (o : Outgoing) : o.type ≠ "" := by
  cases o <;> simp [type]

end Outgoing

/-! The two readers. -/

def PeerReads (json : JsonCodec) (m : Message) : Prop :=
  ∀ script left, Moves script → (frame m.text).length ≤ script.length →
    ∃ rest m', readMessage json script (frame m.text ++ left) = some ⟨.ok m', left, rest⟩ ∧
      json.Same m m'

def DaemonReads (data : List UInt8) : Prop :=
  ∀ (c : IpcClient) (script : List Answer) (left : List UInt8), c.connected = true →
    c.incoming = frame data ++ left → Moves script → (frame data).length ≤ script.length →
      c.receive script = some ({ c with incoming := left }, some data)

section Readers

variable {data : List UInt8} {script : List Answer}

theorem moves_replicate (n : Nat) : Moves (List.replicate n (.moved 0)) := by
  intro answer member
  exact ⟨0, List.eq_of_mem_replicate member⟩

theorem peerReads_iff {json : JsonCodec} {m : Message} (typed : m.type ≠ "")
    (encoded : json.marshal m = some m.text) (some_ : m.text ≠ []) :
    PeerReads json m ↔ m.text.length ≤ 2 ^ 20 := by
  constructor
  · intro reads
    obtain ⟨rest, m', read, -⟩ := reads (List.replicate (frame m.text).length (.moved 0)) []
      (moves_replicate _) (by rw [List.length_replicate])
    -- what was read is as long as its header says, and that is within the limit
    obtain ⟨lenBuf, body, whole, four, length, -, limit, -⟩ := readMessage_sound read rfl
    have total := congrArg List.length whole
    simp only [frame, List.append_nil, List.length_append,
      show (header m.text.length).length = 4 from rfl] at total
    omega
  · intro small script left moves answers
    have fits : Fits json m m.text := ⟨typed, encoded, List.length_pos_iff.mpr some_, small⟩
    obtain ⟨rest, m', read, same, -⟩ := readMessage_frame fits moves answers left
    exact ⟨rest, m', read, same⟩

theorem receive_moves {c : IpcClient} {left : List UInt8} (connected : c.connected = true)
    (front : c.incoming = frame data ++ left) (moves : Moves script)
    (answers : (frame data).length ≤ script.length) : c.receive script = some (
      if data.length % 2 ^ 32 = 0 ∨ messageLimit < data.length % 2 ^ 32 then
        ({ c with incoming := data ++ left }, none)
      else ({ c with incoming := (data ++ left).drop (data.length % 2 ^ 32) },
        some ((data ++ left).take (data.length % 2 ^ 32)))) := by
  have four : (header data.length).length = 4 := rfl
  have cut : data.length % 2 ^ 32 ≤ data.length := Nat.mod_le _ _
  rw [frame, List.length_append, four] at answers
  rw [frame, List.append_assoc] at front
  obtain ⟨rest, first, moves', count⟩ : ∃ rest, readFull script 4 c.incoming = _ ∧ _ :=
    Stream.readFull_moves moves (by omega) (by simp [front, four])
  rw [front, List.take_left' four, List.drop_left' four] at first
  obtain ⟨rest', second, -⟩ : ∃ rest', readFull rest (data.length % 2 ^ 32) (data ++ left) = _ ∧ _ :=
    Stream.readFull_moves moves' (by omega) (by rw [List.length_append]; omega)
  simp only [IpcClient.receive, connected, Bool.true_eq_false, if_false, front, first,
    Option.bind_some, Stream.headerValue_header, second, if_true]
  split <;> rfl

theorem daemonReads_iff (some_ : data ≠ []) : DaemonReads data ↔ data.length ≤ 2 ^ 20 := by
  have pos := List.length_pos_iff.mpr some_
  have limit : messageLimit = 2 ^ 20 := rfl
  constructor
  · intro reads
    have enough : (frame data).length ≤
        (List.replicate (frame data).length (Answer.moved 0)).length := by
      rw [List.length_replicate]
    have front : (IpcClient.mk true (frame data) []).incoming = frame data ++ [] :=
      (List.append_nil _).symm
    have returned := reads _ _ [] rfl front (moves_replicate _) enough
    rw [receive_moves rfl front (moves_replicate _) enough] at returned
    split at returned
    · cases (Prod.mk.inj (Option.some.inj returned)).2
    · rename_i within
      -- the length has lost nothing, since the daemon returned all bytes
      have all := congrArg List.length (Option.some.inj (Prod.mk.inj (Option.some.inj returned)).2)
      rw [List.append_nil, List.length_take] at all
      omega
  · intro small c script left connected front moves answers
    have whole : data.length % 2 ^ 32 = data.length := Nat.mod_eq_of_lt (by omega)
    rw [receive_moves connected front moves answers, whole, if_neg (by omega), List.take_left,
      List.drop_left]

end Readers

theorem text_ne_nil (m : Message) : m.text ≠ [] := List.cons_ne_nil _ _

/-! The bytes of an answer, from what it is made of. -/

def itemBytes {α : Type} (size : α → Nat) (items : List α) : Nat :=
  max 2 (1 + (items.map fun item => size item + 1).sum)

def Uploader.answerBytes (up : Uploader) (m : FileMetadata) : Nat :=
  match (if m.size ≤ inlineLimit then up.file else none), up.listen with
  | some data, _ => if data = [] then 0 else 20 + 4 * ((data.length + 2) / 3)
  | none, .ok port => 17 + Json.intSize port
  | none, .error e => 9 + Json.stringSize e

def Request.answerBytes (sc : SyncCoordinator) (up : Uploader) (now : Int) : Request → Nat
  | .repoList => 101 + Json.intSize now +
    itemBytes (fun r => 15 + Json.stringSize r.id + Json.stringSize r.localPath)
      (sc.db.repositories.entries.map Sigma.snd)
  | .repoStatus repoID => 114 + Json.intSize now + Json.stringSize repoID +
    itemBytes (fun m => 53 + Json.stringSize m.filepath + Json.stringSize m.hash +
        Json.intSize m.size + Json.intSize m.version + Json.intSize m.localLastModified)
      (sc.db.live.filter (·.repositoryID = repoID))
  | .file _ payload => 103 + Json.intSize now + Json.stringSize payload.path +
    Json.stringSize payload.hash +
    match sc.db.getByPathAndHash payload.path payload.hash with
    | none => 33
    | some m => up.answerBytes m

theorem listSize_perm {α : Type} {size : α → Nat} {items sorted : List α}
    (perm : sorted.Perm items) : Json.listSize size sorted = itemBytes size items := by
  have total : ∀ l : List α, l.foldr (fun item n => size item + 1 + n) 0 =
      (l.map fun item => size item + 1).sum := by
    intro l
    induction l with
    | nil => rfl
    | cons item l ih => rw [List.foldr_cons, ih, List.map_cons, List.sum_cons]
  rw [itemBytes, ← (perm.map fun item => size item + 1).sum_nat]
  cases sorted with
  | nil => rfl
  | cons first rest =>
    rw [Json.listSize, total, List.map_cons, List.sum_cons]
    · omega
    · exact List.cons_ne_nil first rest

theorem escapedSize_sextet (n : Nat) : Json.escapedSize (sextet n) = 1 := by
  have all : ∀ k < 64, Json.escapedSize (base64Alphabet.getD k 'A') = 1 := by
    decide +kernel
  exact all (n % 64) (Nat.mod_lt n (by decide))

theorem stringSize_encodeToString (data : Content) :
    Json.stringSize (encodeToString data) = 2 + 4 * ((data.length + 2) / 3) := by
  have pad : Json.escapedSize '=' = 1 := by decide
  have chars : (encodeChars data).foldr (fun c n => Json.escapedSize c + n) 0 =
      4 * ((data.length + 2) / 3) := by
    induction data using encodeChars.induct with
    | case1 => rfl
    | case2 a => simp [encodeChars, escapedSize_sextet, pad]
    | case3 a b => simp [encodeChars, escapedSize_sextet, pad]
    | case4 a b c rest ih =>
      simp only [encodeChars, List.foldr_cons, escapedSize_sextet, ih, List.length_cons]
      omega
  rw [Json.stringSize, encodeToString, String.toList_ofList, chars]

theorem payloadSize_upload {payload : FileRequestPayload} (up : Uploader) (env : Env)
    (m : FileMetadata) (basePath peerID : String) :
    (Outgoing.fileResponse (uploadResponse payload (startUpload (up.env env) m.filepath basePath
        m.repositoryID peerID m.hash m.size).1)).payloadSize =
      17 + Json.stringSize payload.path + Json.stringSize payload.hash + up.answerBytes m := by
  have keys : Json.stringSize "content_base64" = 16 ∧ Json.stringSize "transfer_port" = 15 ∧
      Json.stringSize "error" = 7 := by decide
  by_cases inline : m.size ≤ inlineLimit ∧ up.file ≠ none
  · obtain ⟨small, readable⟩ := inline
    obtain ⟨data, file⟩ := Option.ne_none_iff_exists'.mp readable
    rw [startUpload_inline file small, Uploader.answerBytes, if_pos small, file]
    by_cases empty : data = []
    · subst empty
      rfl
    · have text := mt encodeToString_eq_empty.mp empty
      simp only [uploadResponse, Outgoing.payloadSize, Outgoing.optionalTextSize,
        Outgoing.optionalIntSize, text, empty, stringSize_encodeToString, keys.1, if_true, if_false,
        ite_self]
      omega
  · have streamed : m.size ≤ inlineLimit → up.file = none := by
      intro small
      by_contra readable
      exact inline ⟨small, readable⟩
    have unread : (if m.size ≤ inlineLimit then up.file else none) = none := by
      split
      · exact streamed ‹_›
      · rfl
    rw [startUpload_stream streamed, Uploader.answerBytes, unread]
    cases listened : up.listen with
    | error e =>
      simp only [Except.map, uploadResponse, errorResponse, Outgoing.payloadSize,
        Outgoing.optionalTextSize, Outgoing.optionalIntSize, listen_error listened, keys.2.2,
        if_true, if_false]
      omega
    | ok port =>
      have opened : port ≠ 0 := by
        have := listen_ok listened
        omega
      simp only [Except.map, uploadResponse, Outgoing.payloadSize, Outgoing.optionalTextSize,
        Outgoing.optionalIntSize, opened, keys.2.1, ne_eq, not_true, if_true, if_false]
      omega

theorem size_of_answer {sc : SyncCoordinator} {up : Uploader} {env : Env} {request : Request}
    {o : Outgoing} (sent : o ∈ answers sc (up.env env) request) (now : Int) :
    o.size now = request.answerBytes sc up now := by
  have types : Json.stringSize "repo_list_response" = 20 ∧
      Json.stringSize "repo_status_response" = 22 ∧ Json.stringSize "file_response" = 15 := by decide
  cases request with
  | repoList =>
    have rows : sc.db.listRepositories.Perm (sc.db.repositories.entries.map Sigma.snd) :=
      List.perm_insertionSort _ _
    have size : Outgoing.repoInfoSize =
        fun r => 15 + Json.stringSize r.id + Json.stringSize r.localPath := rfl
    cases List.mem_singleton.mp sent
    rw [Outgoing.size, Outgoing.type, Outgoing.payloadSize, Request.answerBytes, types.1,
      listSize_perm rows, size]
    omega
  | repoStatus repoID =>
    have rows : (sc.db.listByRepository repoID false).Perm
        (sc.db.live.filter (·.repositoryID = repoID)) := by
      refine (List.perm_insertionSort _ _).trans (List.Perm.of_eq ?_)
      rw [DB.live, List.filter_filter]
      congr 1
      funext m
      simp
    cases List.mem_singleton.mp sent
    have size : Outgoing.fileInfoSize = fun m => 53 + Json.stringSize m.filepath +
        Json.stringSize m.hash + Json.intSize m.size + Json.intSize m.version +
        Json.intSize m.localLastModified := rfl
    rw [Outgoing.size, Outgoing.type, Outgoing.payloadSize, Request.answerBytes, types.2.1,
      listSize_perm rows, size]
    omega
  | file peerID payload =>
    obtain ⟨out, emitted, answer⟩ := List.mem_filterMap.mp sent
    cases valid : payload.validate with
    | some e => simp [handleFileRequest, valid] at emitted
    | none =>
      cases found : sc.db.getByPathAndHash payload.path payload.hash with
      | none =>
        simp only [handleFileRequest, valid, found, List.mem_singleton] at emitted
        subst emitted
        cases answer
        have error : Outgoing.optionalTextSize "error" "file not found locally" = 33 := by decide
        have none (key : String) : Outgoing.optionalTextSize key "" = 0 := rfl
        have zero (key : String) : Outgoing.optionalIntSize key 0 = 0 := rfl
        simp only [Outgoing.size, Outgoing.type, Outgoing.payloadSize, errorResponse, error, none,
          zero, Request.answerBytes, found, types.2.2]
        omega
      | some m =>
        obtain ⟨basePath, whole⟩ := handleFileRequest_found valid found (up.env env) peerID
        rw [whole] at emitted
        rcases List.mem_append.mp emitted with opened | last
        · rcases startUpload_out opened with rfl | rfl <;> cases answer
        · cases List.mem_singleton.mp last
          cases answer
          rw [Outgoing.size, payloadSize_upload, Outgoing.type, Request.answerBytes, found, types.2.2]
          simp only
          omega

theorem answers_accepted_iff (sc : SyncCoordinator) (env : Env) (up : Uploader) (request : Request)
    (now : Int) : ∀ o ∈ answers sc (up.env env) request,
      (o.message now).text.length = request.answerBytes sc up now ∧
      (∀ json : JsonCodec, json.marshal (o.message now) = some (o.message now).text →
        (PeerReads json (o.message now) ↔ request.answerBytes sc up now ≤ 2 ^ 20)) ∧
      (DaemonReads (o.message now).text ↔ request.answerBytes sc up now ≤ 2 ^ 20) := by
  intro o sent
  have length := (o.length_text now).trans (size_of_answer sent now)
  refine ⟨length, fun json encoded => ?_, ?_⟩
  · rw [← length]
    exact peerReads_iff o.type_ne_empty encoded (text_ne_nil _)
  · rw [← length]
    exact daemonReads_iff (text_ne_nil _)

/-! An answer that carries a file. -/

def grownAnswer (data : Content) : Outgoing :=
  .fileResponse ⟨"f", "#", encodeToString data, "", 0, ""⟩

theorem grownAnswer_sent (data : Content) :
    grownAnswer data ∈ answers serving (servingEnv data) (.file "b" ⟨"f", "#"⟩) := by
  have valid : (FileRequestPayload.mk "f" "#").validate = none := by decide
  obtain ⟨m, found, recorded⟩ : ∃ m, serving.db.getByPathAndHash "f" "#" = some m ∧ m.size = 0 :=
    ⟨_, rfl, rfl⟩
  have small : m.size ≤ inlineLimit := by
    rw [recorded]
    decide
  obtain ⟨basePath, out⟩ := handleFileRequest_found valid found (servingEnv data) "b"
  rw [servingEnv, startUpload_inline rfl small] at out
  refine List.mem_filterMap.mpr ⟨_, out ▸ List.mem_append_right _ List.mem_cons_self, ?_⟩
  rw [uploadResponse, ite_self]
  rfl

theorem grownAnswer_small : DaemonReads ((grownAnswer [77]).message 0).text := by
  refine (answers_accepted_iff serving ⟨false, none, .error "", .refused, false⟩
    ⟨some [77], .error "in use", .error "in use"⟩ (.file "b" ⟨"f", "#"⟩) 0 _
    (grownAnswer_sent [77])).2.2.mpr ?_
  decide +kernel

theorem grownAnswer_large {data : Content} (length : 2 ^ 20 ≤ data.length) :
    2 ^ 20 < ((grownAnswer data).message 0).text.length := by
  have text : encodeToString data ≠ "" := by
    rw [ne_eq, encodeToString_eq_empty, ← List.length_eq_zero_iff]
    omega
  have inline : Outgoing.optionalTextSize "content_base64" (encodeToString data) =
      Json.stringSize "content_base64" + 2 + (2 + 4 * ((data.length + 2) / 3)) := by
    rw [Outgoing.optionalTextSize, if_neg text, stringSize_encodeToString]
  rw [Outgoing.length_text, Outgoing.size, grownAnswer, Outgoing.payloadSize, inline]
  omega

theorem grown_file_not_read : ∃ data : Content, data.length = 2 ^ 20 ∧
    grownAnswer data ∈ answers serving (servingEnv data) (.file "b" ⟨"f", "#"⟩) ∧
    2 ^ 20 < ((grownAnswer data).message 0).text.length ∧
    ¬ DaemonReads ((grownAnswer data).message 0).text ∧
    ∀ json : JsonCodec,
      json.marshal ((grownAnswer data).message 0) = some ((grownAnswer data).message 0).text →
      ¬ PeerReads json ((grownAnswer data).message 0) := by
  obtain ⟨data, length⟩ : ∃ data : Content, data.length = 2 ^ 20 :=
    ⟨List.replicate (2 ^ 20) 0, List.length_replicate⟩
  have large := grownAnswer_large (Nat.le_of_eq length.symm)
  refine ⟨data, length, grownAnswer_sent data, large, ?_, fun json encoded => ?_⟩
  · rw [daemonReads_iff (text_ne_nil _)]
    exact Nat.not_le_of_lt large
  · rw [peerReads_iff (grownAnswer data).type_ne_empty encoded (text_ne_nil _)]
    exact Nat.not_le_of_lt large

end P2PSync
