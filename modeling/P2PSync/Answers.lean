import P2PSync.Transfer

/-! What an uploader answers. The recorded size decides between an inline text and a
port, the file on disk decides what the text is, and an empty text stands for
no text at all. -/
namespace P2PSync

/-! Standard base64. -/

def base64Alphabet : List Char :=
  "ABCDEFGHIJKLMNOPQRSTUVWXYZabcdefghijklmnopqrstuvwxyz0123456789+/".toList

def sextet (n : Nat) : Char := base64Alphabet.getD (n % 64) 'A'

/-- Three bytes become four characters; the last group is padded. -/
def encodeChars : Content → List Char
  | [] => []
  | [a] => [sextet (a.toNat / 4), sextet (a.toNat * 16), '=', '=']
  | [a, b] =>
    [sextet (a.toNat / 4), sextet (a.toNat * 16 + b.toNat / 16), sextet (b.toNat * 4), '=']
  | a :: b :: c :: rest =>
    sextet (a.toNat / 4) :: sextet (a.toNat * 16 + b.toNat / 16) ::
      sextet (b.toNat * 4 + c.toNat / 64) :: sextet c.toNat :: encodeChars rest

def encodeToString (data : Content) : String := String.ofList (encodeChars data)

example : encodeToString [77, 97, 110, 77] = "TWFuTQ==" := by decide

theorem encodeToString_eq_empty {data : Content} : encodeToString data = "" ↔ data = [] := by
  rw [encodeToString, String.ofList_eq_empty_iff]
  cases data using encodeChars.induct <;> simp [encodeChars]

/-! The uploader's side of a request. -/

def Port : Type := { port : Int // 1 ≤ port ∧ port ≤ 65535 }

structure Uploader where
  /-- None: the file cannot be read. -/
  file : Option Content
  network : Except String Port
  transfer : Except String Port

def Uploader.listen (up : Uploader) : Except String Int :=
  match up.network, up.transfer with
  | .error e, _ => .error ("failed to listen on P2P network port: " ++ e)
  | .ok _, .error e => .error ("failed to listen on local transfer port: " ++ e)
  | .ok port, .ok _ => .ok port.1

def Uploader.env (up : Uploader) (env : Env) : Env :=
  { env with
    read := up.file.map encodeToString
    listen := up.listen }

def Usable (file : Option Content) (response : FileResponsePayload) : Prop :=
  response.error ≠ "" ∨ response.validate = none ∧
    ((∃ data, file = some data ∧ response.contentBase64 = encodeToString data) ∨
      1 ≤ response.transferPort ∧ response.transferPort ≤ 65535)

theorem listen_error {up : Uploader} {e : String} (failed : up.listen = .error e) : e ≠ "" := by
  unfold Uploader.listen at failed
  split at failed
  · cases failed
    simp
  · cases failed
    simp
  · cases failed

theorem listen_ok {up : Uploader} {port : Int} (opened : up.listen = .ok port) :
    1 ≤ port ∧ port ≤ 65535 := by
  unfold Uploader.listen at opened
  split at opened
  · cases opened
  · cases opened
  · rename_i port' _ _ _
    cases opened
    exact port'.2

def uploadResponse (payload : FileRequestPayload) :
    Except String (Int × String) → FileResponsePayload
  | .error e => errorResponse payload e
  | .ok (port, data) => ⟨payload.path, payload.hash, data, "", if data ≠ "" then 0 else port, ""⟩

theorem handleFileRequest_found {sc : SyncCoordinator} {payload : FileRequestPayload}
    (valid : payload.validate = none) {m : FileMetadata}
    (found : sc.db.getByPathAndHash payload.path payload.hash = some m) (env : Env)
    (peerID : String) : ∃ basePath, (handleFileRequest sc env peerID payload).out =
      (startUpload env m.filepath basePath m.repositoryID peerID m.hash m.size).2 ++
        [.sendToPeer peerID (.fileResponse (uploadResponse payload
          (startUpload env m.filepath basePath m.repositoryID peerID m.hash m.size).1))] := by
  simp only [handleFileRequest, valid, found]
  cases sc.db.getRepository m.repositoryID with
  | none =>
    refine ⟨"", ?_⟩
    rcases startUpload env m.filepath "" m.repositoryID peerID m.hash m.size with
      ⟨e | ⟨port, data⟩, opened⟩ <;> rfl
  | some repo =>
    refine ⟨repo.localPath, ?_⟩
    simp only
    rcases startUpload env m.filepath repo.localPath m.repositoryID peerID m.hash m.size with
      ⟨e | ⟨port, data⟩, opened⟩ <;> rfl

theorem validate_request {payload : FileRequestPayload} (valid : payload.validate = none) :
    payload.path ≠ "" ∧ payload.hash ≠ "" := by
  unfold FileRequestPayload.validate at valid
  split at valid
  · cases valid
  · rename_i path
    split at valid
    · cases valid
    · rename_i hash
      exact ⟨path, hash⟩

section Response

variable {payload : FileRequestPayload} (valid : payload.validate = none)
include valid

theorem usable_inline {data : Content} (some_ : data ≠ []) (file : Option Content)
    (read : file = some data) :
    Usable file (uploadResponse payload (.ok (0, encodeToString data))) := by
  obtain ⟨path, hash⟩ := validate_request valid
  have text : encodeToString data ≠ "" := fun empty => some_ (encodeToString_eq_empty.mp empty)
  refine Or.inr ⟨?_, Or.inl ⟨data, read, rfl⟩⟩
  simp [FileResponsePayload.validate, uploadResponse, path, hash, text]

theorem usable_port (file : Option Content) {port : Int} (low : 1 ≤ port) (high : port ≤ 65535) :
    Usable file (uploadResponse payload (.ok (port, ""))) := by
  obtain ⟨path, hash⟩ := validate_request valid
  refine Or.inr ⟨?_, Or.inr ⟨low, high⟩⟩
  have positive : ¬ port ≤ 0 := by omega
  have within : ¬ 65535 < port := by omega
  simp [FileResponsePayload.validate, uploadResponse, path, hash, positive, within]

theorem not_usable_empty (file : Option Content) :
    ¬ Usable file (uploadResponse payload (.ok (0, ""))) := by
  obtain ⟨path, hash⟩ := validate_request valid
  rintro (told | ⟨accepted, -⟩)
  · exact told rfl
  · simp [FileResponsePayload.validate, uploadResponse, path, hash] at accepted

end Response

theorem usable_listen {payload : FileRequestPayload} (valid : payload.validate = none)
    (up : Uploader) :
    Usable up.file (uploadResponse payload (up.listen.map (fun port => (port, "")))) := by
  cases listened : up.listen with
  | error e => exact Or.inl (listen_error listened)
  | ok port =>
    obtain ⟨low, high⟩ := listen_ok listened
    exact usable_port valid up.file low high

theorem startUpload_inline {up : Uploader} {data : Content} (file : up.file = some data)
    {size : Int} (small : size ≤ inlineLimit) (env : Env)
    (path basePath repoID peerID hash : String) :
    (startUpload (up.env env) path basePath repoID peerID hash size).1 =
      .ok (0, encodeToString data) := by
  simp [startUpload, Uploader.env, small, file]

theorem startUpload_stream {up : Uploader} {size : Int}
    (streamed : size ≤ inlineLimit → up.file = none) (env : Env)
    (path basePath repoID peerID hash : String) :
    (startUpload (up.env env) path basePath repoID peerID hash size).1 =
      up.listen.map (fun port => (port, "")) := by
  have nothing : (if size ≤ inlineLimit then (up.env env).read else none) = none := by
    split
    · rename_i small
      rw [Uploader.env, streamed small, Option.map_none]
    · rfl
  have listening : (up.env env).listen = up.listen := rfl
  simp only [startUpload, nothing, listening]
  cases up.listen with
  | error e => rfl
  | ok port => rfl

/-- Every answer to a request for a live row is usable, except the inline answer
for a file that is empty. The limit on frames comes after this. -/
theorem upload_answer_usable_iff {sc : SyncCoordinator} {payload : FileRequestPayload}
    (valid : payload.validate = none) {m : FileMetadata}
    (found : sc.db.getByPathAndHash payload.path payload.hash = some m) (env : Env) (up : Uploader)
    (peerID : String) : ∃ response, .sendToPeer peerID (.fileResponse response) ∈
        (handleFileRequest sc (up.env env) peerID payload).out ∧
      (∀ other, .sendToPeer peerID (.fileResponse other) ∈
        (handleFileRequest sc (up.env env) peerID payload).out → other = response) ∧
      (Usable up.file response ↔ ¬ (m.size ≤ inlineLimit ∧ up.file = some [])) := by
  obtain ⟨basePath, out⟩ := handleFileRequest_found valid found (up.env env) peerID
  refine ⟨_, out ▸ List.mem_append_right _ List.mem_cons_self, ?_, ?_⟩
  · intro other sent
    rw [out] at sent
    rcases List.mem_append.mp sent with opened | answer
    · rcases startUpload_out opened with read | prepared
      · cases read
      · cases prepared
    · cases List.mem_singleton.mp answer
      rfl
  · by_cases inline : m.size ≤ inlineLimit ∧ up.file ≠ none
    · obtain ⟨small, readable⟩ := inline
      obtain ⟨data, file⟩ := Option.ne_none_iff_exists'.mp readable
      rw [startUpload_inline file small, file]
      by_cases empty : data = []
      · subst empty
        rw [encodeToString_eq_empty.mpr rfl]
        exact iff_of_false (not_usable_empty valid _) (fun kept => kept ⟨small, rfl⟩)
      · exact iff_of_true (usable_inline valid empty _ rfl)
          (fun h => empty (Option.some.inj h.2))
    · have streamed : m.size ≤ inlineLimit → up.file = none := by
        intro small
        by_contra readable
        exact inline ⟨small, readable⟩
      rw [startUpload_stream streamed]
      refine iff_of_true (usable_listen valid up) ?_
      rintro ⟨small, file⟩
      rw [streamed small] at file
      cases file

def serving : SyncCoordinator :=
  (handleLocalFileChanged (addRepository (.new "a") 0 "r" "/r") 0 "r"
    ⟨.add, "f", "#", 0, 5, 420⟩).sc

def servingEnv (file : Content) : Env :=
  (Uploader.mk (some file) (.error "in use") (.error "in use")).env
    ⟨false, none, .error "", .refused, false⟩

theorem upload_answer_usable_grown : ∃ response, .sendToPeer "b" (.fileResponse response) ∈
        (handleFileRequest serving (servingEnv [77]) "b" ⟨"f", "#"⟩).out ∧
      Usable (some [77]) response := by
  obtain ⟨m, found, -⟩ : ∃ m, serving.db.getByPathAndHash "f" "#" = some m ∧ m.size = 0 :=
    ⟨_, rfl, rfl⟩
  obtain ⟨response, sent, -, usable⟩ := @upload_answer_usable_iff serving ⟨"f", "#"⟩ (by decide)
    m found ⟨false, none, .error "", .refused, false⟩
    (Uploader.mk (some [77]) (.error "in use") (.error "in use")) "b"
  exact ⟨response, sent, usable.mpr (fun h => by cases h.2)⟩

theorem empty_file_answer_refused : (handleFileRequest serving (servingEnv []) "b" ⟨"f", "#"⟩).out =
      [.readFile "r" "/r/f", .sendToPeer "b" (.fileResponse ⟨"f", "#", "", "", 0, ""⟩)] ∧
    (FileResponsePayload.mk "f" "#" "" "" 0 "").error = "" ∧
    (FileResponsePayload.mk "f" "#" "" "" 0 "").validate =
      some "either content_base64, file_content, or transfer_port must be populated" := by
  refine ⟨?_, rfl, ?_⟩
  · decide
  · decide

end P2PSync
