import P2PSync.Library.Json
import P2PSync.Library.Stream

/-! The coordinator's side of the IPC framing, which the connections between peers use
as well: a message as JSON behind its length in four bytes. -/
namespace P2PSync

open Stream (Answer readFull writeFull header headerValue frame Moves)

structure Message where
  version : String
  type : String
  id : String
  timestamp : Int
  source : String
  payload : List UInt8
  deriving DecidableEq, Repr

def Message.text (m : Message) : List UInt8 :=
  Json.object [("version", Json.string m.version), ("type", Json.string m.type),
    ("id", Json.string m.id), ("timestamp", Json.int m.timestamp),
    ("source", Json.string m.source), ("payload", m.payload)]

/-- The JSON library: encoding a message and decoding it again gives the message with
a payload of the same value. -/
structure JsonCodec where
  Value : Type
  value : List UInt8 → Value
  marshal : Message → Option (List UInt8)
  unmarshal : List UInt8 → Option Message
  inverts : ∀ m data, marshal m = some data →
    ∃ m', unmarshal data = some m' ∧ m' = { m with payload := m'.payload } ∧
      value m'.payload = value m.payload

def JsonCodec.Same (json : JsonCodec) (m m' : Message) : Prop :=
  m' = { m with payload := m'.payload } ∧ json.value m'.payload = json.value m.payload

inductive ReadError where
  | connection
  | invalidLength (len : Nat)
  | json
  | missingType
  deriving DecidableEq, Repr

structure MessageRead where
  result : Except ReadError Message
  left : List UInt8
  script : List Answer

variable (json : JsonCodec)

def readMessage (script : List Answer) (stream : List UInt8) : Option MessageRead :=
  (readFull script 4 stream).bind fun lenBuf =>
    if lenBuf.stop ≠ .full then some ⟨.error .connection, lenBuf.left, lenBuf.script⟩
    else
      let len := headerValue lenBuf.got
      if len = 0 ∨ 1024 * 1024 < len then
        some ⟨.error (.invalidLength len), lenBuf.left, lenBuf.script⟩
      else
        (readFull lenBuf.script len lenBuf.left).bind fun msgBuf =>
          let result := if msgBuf.stop ≠ .full then .error .connection
            else match json.unmarshal msgBuf.got with
              | none => .error .json
              | some msg => if msg.type = "" then .error .missingType else .ok msg
          some ⟨result, msgBuf.left, msgBuf.script⟩

def writeMessage (script : List Answer) (msg : Message) : Option (Stream.Written UInt8) :=
  match json.marshal msg with
  | none => some ⟨[], script, false⟩
  | some data =>
    (writeFull script (header data.length)).bind fun lenBuf =>
      if lenBuf.done = false then some lenBuf
      else (writeFull lenBuf.script data).map
        (fun body => { body with out := lenBuf.out ++ body.out })

def writeMessages : List Answer → List Message → Option (Stream.Written UInt8)
  | script, [] => some ⟨[], script, true⟩
  | script, msg :: rest =>
    (writeMessage json script msg).bind fun first =>
      if first.done = false then some first
      else (writeMessages first.script rest).map
        (fun later => { later with out := first.out ++ later.out })

structure MessagesRead where
  messages : List Message
  left : List UInt8
  script : List Answer

def readMessages : Nat → List Answer → List UInt8 → Option MessagesRead
  | 0, script, stream => some ⟨[], stream, script⟩
  | n + 1, script, stream =>
    (readMessage json script stream).bind fun first =>
      match first.result with
      | .error _ => some ⟨[], first.left, first.script⟩
      | .ok msg => (readMessages n first.script first.left).map
        (fun later => { later with messages := msg :: later.messages })

def Fits (m : Message) (data : List UInt8) : Prop :=
  m.type ≠ "" ∧ json.marshal m = some data ∧ 1 ≤ data.length ∧ data.length ≤ 2 ^ 20

variable {json}

section

variable {m : Message} {data : List UInt8} (fits : Fits json m data) {script : List Answer}
  (moves : Moves script) (answers : (frame data).length ≤ script.length)

include fits moves answers

omit moves answers in
theorem headerValue_fits : headerValue (header data.length) = data.length := by
  rw [Stream.headerValue_header]
  have := fits.2.2.2
  omega

theorem writeMessage_frame :
    ∃ rest, writeMessage json script m = some ⟨frame data, rest, true⟩ ∧ Moves rest ∧
      script.length ≤ rest.length + (frame data).length := by
  rw [frame, List.length_append] at answers ⊢
  obtain ⟨rest, first, moves', count⟩ : ∃ rest, writeFull script (header data.length) = _ ∧ _ :=
    Stream.writeFull_moves moves (by omega)
  obtain ⟨rest', second, moves'', count'⟩ : ∃ rest', writeFull rest data = _ ∧ _ :=
    Stream.writeFull_moves moves' (by omega)
  refine ⟨rest', ?_, moves'', by omega⟩
  simp [writeMessage, fits.2.1, first, second]

theorem readMessage_frame (left : List UInt8) :
    ∃ rest m', readMessage json script (frame data ++ left) = some ⟨.ok m', left, rest⟩ ∧
      json.Same m m' ∧ Moves rest ∧ script.length ≤ rest.length + (frame data).length := by
  obtain ⟨m', decoded, same⟩ := json.inverts m data fits.2.1
  have typed : m'.type ≠ "" := by
    rw [same.1]
    exact fits.1
  have four : (header data.length).length = 4 := rfl
  rw [frame, List.length_append, four] at answers ⊢
  obtain ⟨rest, first, moves', count⟩ :
      ∃ rest, readFull script 4 (header data.length ++ data ++ left) = _ ∧ _ :=
    Stream.readFull_moves moves (by omega) (by simp [four])
  obtain ⟨rest', second, moves'', count'⟩ :
      ∃ rest', readFull rest data.length (data ++ left) = _ ∧ _ :=
    Stream.readFull_moves moves' (by omega) (by simp)
  refine ⟨rest', m', ?_, same, moves'', by omega⟩
  have head : (header data.length ++ data ++ left).take 4 = header data.length := by
    rw [List.append_assoc, List.take_left' four]
  have body : (header data.length ++ data ++ left).drop 4 = data ++ left := by
    rw [List.append_assoc, List.drop_left' four]
  have size : ¬ (data.length = 0 ∨ 1024 * 1024 < data.length) := by
    have := fits.2.2
    omega
  simp only [readMessage, first, head, body, headerValue_fits fits, if_neg size, second,
    Option.bind_some, List.take_left, List.drop_left, decoded, if_neg typed, ne_eq, not_true,
    if_false]

end

theorem messages_frames {msgs : List Message} {datas : List (List UInt8)}
    (fits : List.Forall₂ (Fits json) msgs datas) {script : List Answer} (moves : Moves script)
    (answers : (datas.flatMap frame).length ≤ script.length) :
    (∃ rest, writeMessages json script msgs = some ⟨datas.flatMap frame, rest, true⟩) ∧
    ∀ left, ∃ received rest, readMessages json msgs.length script (datas.flatMap frame ++ left) =
      some ⟨received, left, rest⟩ ∧ List.Forall₂ json.Same msgs received := by
  induction fits generalizing script with
  | nil => exact ⟨⟨script, rfl⟩, fun left => ⟨[], script, rfl, .nil⟩⟩
  | @cons m data msgs datas first later ih =>
    rw [List.flatMap_cons, List.length_append] at answers
    constructor
    · obtain ⟨rest, written, moves', count⟩ := writeMessage_frame first moves (by omega)
      obtain ⟨⟨rest', more⟩, -⟩ := ih moves' (by omega)
      exact ⟨rest', by simp [writeMessages, written, more]⟩
    · intro left
      obtain ⟨rest, m', read, same, moves', count⟩ := readMessage_frame first moves (by omega)
        (datas.flatMap frame ++ left)
      obtain ⟨received, rest', more, all⟩ := (ih moves' (by omega)).2 left
      refine ⟨m' :: received, rest', ?_, .cons same all⟩
      simp [readMessages, read, more]

theorem readMessage_sound {script : List Answer} {stream : List UInt8} {r : MessageRead}
    {m : Message} (returned : readMessage json script stream = some r) (ok : r.result = .ok m) :
    ∃ lenBuf body, stream = lenBuf ++ body ++ r.left ∧ lenBuf.length = 4 ∧
      body.length = headerValue lenBuf ∧ 1 ≤ headerValue lenBuf ∧ headerValue lenBuf ≤ 2 ^ 20 ∧
      json.unmarshal body = some m ∧ m.type ≠ "" := by
  obtain ⟨lenBuf, first, returned⟩ := Option.bind_eq_some_iff.mp returned
  split at returned
  · cases returned
    cases ok
  · rename_i full
    simp only at returned
    split at returned
    · cases returned
      cases ok
    · rename_i size
      obtain ⟨msgBuf, second, returned⟩ := Option.bind_eq_some_iff.mp returned
      cases returned
      simp only at ok
      split at ok
      · cases ok
      · rename_i whole
        split at ok
        · cases ok
        · rename_i msg decoded
          split at ok
          · cases ok
          · rename_i typed
            cases ok
            have four := (Stream.readFull_spec first).2 (not_not.mp full)
            have length := (Stream.readFull_spec second).2 (not_not.mp whole)
            refine ⟨lenBuf.got, msgBuf.got, ?_, four, length, by omega, by omega, decoded, typed⟩
            rw [List.append_assoc, (Stream.readFull_spec second).1, (Stream.readFull_spec first).1]

/-- Messages that fit into frames come back in order, however the connection splits the
writes and the reads, and not a byte more is read than was written. Whatever is on a
connection, a message is returned only after a whole frame. -/
theorem framing_round_trip (json : JsonCodec) :
    (∀ (msgs : List Message) (datas : List (List UInt8)) (writes reads : List Answer)
        (left : List UInt8), List.Forall₂ (Fits json) msgs datas → Moves writes → Moves reads →
        (datas.flatMap frame).length ≤ writes.length →
        (datas.flatMap frame).length ≤ reads.length →
      ∃ out rest received rest', writeMessages json writes msgs = some ⟨out, rest, true⟩ ∧
        readMessages json msgs.length reads (out ++ left) = some ⟨received, left, rest'⟩ ∧
        List.Forall₂ json.Same msgs received) ∧
    ∀ (script : List Answer) (stream : List UInt8) (r : MessageRead) (m : Message),
      readMessage json script stream = some r → r.result = .ok m →
      ∃ lenBuf body, stream = lenBuf ++ body ++ r.left ∧ lenBuf.length = 4 ∧
        body.length = headerValue lenBuf ∧ 1 ≤ headerValue lenBuf ∧
        headerValue lenBuf ≤ 2 ^ 20 ∧ json.unmarshal body = some m ∧ m.type ≠ "" := by
  constructor
  · intro msgs datas writes reads left fits written read enough enough'
    obtain ⟨⟨rest, out⟩, -⟩ := messages_frames fits written enough
    obtain ⟨received, rest', back, same⟩ := (messages_frames fits read enough').2 left
    exact ⟨_, rest, received, rest', out, back, same⟩
  · intro script stream r m returned ok
    exact readMessage_sound returned ok

def pingMessage : Message := ⟨"1.0", "ping", "", 7, "go", [110, 117, 108, 108]⟩

def pongMessage : Message := ⟨"1.0", "pong", "", 8, "go", [110, 117, 108, 108]⟩

def twoMessages : JsonCodec where
  Value := List UInt8
  value := id
  marshal m := if m = pingMessage ∨ m = pongMessage then some m.text else none
  unmarshal data :=
    if data = pingMessage.text then some pingMessage
    else if data = pongMessage.text then some pongMessage else none
  inverts := by
    have apart : pongMessage.text ≠ pingMessage.text := by decide +kernel
    intro m data encoded
    split at encoded
    · rename_i known
      cases encoded
      rcases known with rfl | rfl
      · exact ⟨pingMessage, if_pos rfl, rfl, rfl⟩
      · exact ⟨pongMessage, (if_neg apart).trans (if_pos rfl), rfl, rfl⟩
    · cases encoded

theorem fits_ping : Fits twoMessages pingMessage pingMessage.text := by
  refine ⟨by decide, rfl, ?_, ?_⟩ <;> decide +kernel

theorem fits_pong : Fits twoMessages pongMessage pongMessage.text := by
  refine ⟨by decide, rfl, ?_, ?_⟩ <;> decide +kernel

theorem framing_round_trip_twoMessages : (∃ out rest received rest',
      writeMessages twoMessages (List.replicate 200 (.moved 1)) [pingMessage, pongMessage] =
        some ⟨out, rest, true⟩ ∧
      readMessages twoMessages 2 (List.replicate 100 (.moved 0) ++ List.replicate 100 (.moved 2))
        (out ++ [9]) = some ⟨received, [9], rest'⟩ ∧
      List.Forall₂ twoMessages.Same [pingMessage, pongMessage] received) ∧
    ∃ lenBuf body, frame pongMessage.text ++ [9] = lenBuf ++ body ++ [9] ∧ lenBuf.length = 4 ∧
      body.length = headerValue lenBuf ∧ 1 ≤ headerValue lenBuf ∧ headerValue lenBuf ≤ 2 ^ 20 ∧
      twoMessages.unmarshal body = some pongMessage ∧ pongMessage.type ≠ "" := by
  constructor
  · refine (framing_round_trip twoMessages).1 [pingMessage, pongMessage]
      [pingMessage.text, pongMessage.text] _ _ [9] (.cons fits_ping (.cons fits_pong .nil)) ?_ ?_ ?_ ?_
    all_goals decide +kernel
  · have short : (frame pongMessage.text).length ≤ 100 := by decide +kernel
    have moves : Moves (List.replicate 100 (.moved 0)) := by decide +kernel
    obtain ⟨rest, m, read, same, -⟩ := readMessage_frame fits_pong moves
      (by rwa [List.length_replicate]) [9]
    have payload : m.payload = pongMessage.payload := same.2
    obtain rfl : m = pongMessage := same.1.trans (by rw [payload])
    exact (framing_round_trip twoMessages).2 _ _ _ pongMessage read rfl

end P2PSync
