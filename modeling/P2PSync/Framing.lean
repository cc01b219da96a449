import P2PSync.Library.Stream
import P2PSync.Library.Transition

/-! The daemon's side of the IPC socket: messages behind their length, on a
stream that can stop anywhere. The run is that of one connection. -/
namespace P2PSync

open Transition
open Stream (Answer readFull writeFull header headerValue frame delivery)

structure IpcClient where
  connected : Bool
  incoming : List UInt8
  outgoing : List UInt8
  deriving DecidableEq

def messageLimit : Nat := 1 * 1024 * 1024

namespace IpcClient

def disconnectOnError (c : IpcClient) : IpcClient := { c with connected := false }

/-- None inside the result is the return value false. -/
def receive (c : IpcClient) (script : List Answer) : Option (IpcClient × Option (List UInt8)) :=
  if c.connected = false then some (c, none)
  else
    (readFull script 4 c.incoming).bind fun head =>
      let c := { c with incoming := head.left }
      match head.stop with
      -- a time limit keeps the connection, whatever was read so far
      | .again => some (c, none)
      | .broken => some (c.disconnectOnError, none)
      | .full =>
        let len := headerValue head.got
        if len = 0 ∨ messageLimit < len then some (c, none)
        else
          (readFull head.script len c.incoming).bind fun body =>
            let c := { c with incoming := body.left }
            if body.stop = .full then some (c, some body.got)
            else some (c.disconnectOnError, none)

/-- The length is cut to 32 bits, and only so many bytes are written. -/
def send (c : IpcClient) (message : List UInt8) (script : List Answer) :
    Option (IpcClient × Bool) :=
  if c.connected = false then some (c, false)
  else
    (writeFull script (header message.length)).bind fun head =>
      let c := { c with outgoing := c.outgoing ++ head.out }
      if head.done = false then some (c, false)
      else
        (writeFull head.script (message.take (message.length % 2 ^ 32))).bind fun body =>
          some ({ c with outgoing := c.outgoing ++ body.out }, body.done)

end IpcClient

/-- A connection in use: the messages returned by receive and those whose send
succeeded. The frames the client has not passed are a record for the proofs. -/
structure IpcRun where
  client : IpcClient
  messages : List (List UInt8)
  delivered : List (List UInt8)
  unread : List (List UInt8)

inductive IpcCall where
  | receive (script : List Answer)
  | send (message : List UInt8) (script : List Answer)

def IpcRun.start (frames : List (List UInt8)) : IpcRun :=
  ⟨⟨true, frames.flatMap frame, []⟩, [], [], frames⟩

def IpcRun.next (r : IpcRun) : IpcCall → Option IpcRun
  | .receive script =>
    (r.client.receive script).map fun (client, message) =>
      ⟨client, r.messages ++ message.toList, r.delivered,
        if client.connected = true ∧ client.incoming ≠ r.client.incoming then r.unread.tail
        else r.unread⟩
  | .send message script =>
    (r.client.send message script).map fun (client, ok) =>
      ⟨client, r.messages, if ok then r.delivered ++ [message] else r.delivered, r.unread⟩

def sentFrame (message : List UInt8) : List UInt8 :=
  header message.length ++ message.take (message.length % 2 ^ 32)

/-- Both directions stand at the border of a frame, or the connection is closed
or will carry nothing more. -/
structure IpcRun.Aligned (frames : List (List UInt8)) (r : IpcRun) : Prop where
  passed : ∃ passed, frames = passed ++ r.unread ∧ r.messages = passed.filter (· ≠ [])
  incoming : r.client.connected = true → r.client.incoming = r.unread.flatMap frame
  outgoing : ∃ tail message, tail <+: sentFrame message ∧
    r.client.outgoing = r.delivered.flatMap sentFrame ++ tail

/-- No time limit strikes inside a header, a header that comes through is that of
a frame within the limit, and nothing is sent behind a frame that was cut off. -/
def calm (r : IpcRun) : IpcCall → Bool
  | .receive script =>
    match delivery script 4 with
    | some (n, .again) => n = 0
    | some (_, .full) => r.unread.head?.all (fun body => body.length ≤ messageLimit)
    | _ => true
  | .send _ _ => r.client.connected = false ∨ r.client.outgoing = r.delivered.flatMap sentFrame

def unbroken (message : List UInt8) (script : List Answer) : Bool :=
  (writeFull script (header message.length)).all fun head =>
    if head.done then
      (writeFull head.script (message.take (message.length % 2 ^ 32))).all (·.done)
    else head.out.isEmpty

/-- The same on the answers of the socket alone, where sends are concerned. -/
def calmAnswers (r : IpcRun) : IpcCall → Bool
  | .receive script => calm r (.receive script)
  | .send message script => unbroken message script

inductive IpcClient.Receives (c : IpcClient) (script : List Answer) :
    IpcClient → Option (List UInt8) → Prop
  | closed (closed : c.connected = false) : Receives c script c none
  | paused {head : Stream.Read UInt8} (first : readFull script 4 c.incoming = some head)
      (stop : head.stop = .again) : Receives c script { c with incoming := head.left } none
  | failed {left : List UInt8} (rest : left <:+ c.incoming) :
      Receives c script (disconnectOnError { c with incoming := left }) none
  | refused {head : Stream.Read UInt8} (first : readFull script 4 c.incoming = some head)
      (stop : head.stop = .full)
      (length : headerValue head.got = 0 ∨ messageLimit < headerValue head.got) :
      Receives c script { c with incoming := head.left } none
  | message {head : Stream.Read UInt8} (first : readFull script 4 c.incoming = some head)
      (stop : head.stop = .full) (length : headerValue head.got ≠ 0) :
      Receives c script { c with incoming := head.left.drop (headerValue head.got) }
        (some (head.left.take (headerValue head.got)))

section Receive

variable {c c' : IpcClient} {script : List Answer} {message : Option (List UInt8)}
  {head : Stream.Read UInt8}

theorem receive_closed (closed : c.connected = false) (script : List Answer) :
    c.receive script = some (c, none) := by
  simp only [IpcClient.receive, if_pos closed]

theorem receives_body {body : Stream.Read UInt8} (first : readFull script 4 c.incoming = some head)
    (stop : head.stop = .full) (length : headerValue head.got ≠ 0)
    (second : readFull head.script (headerValue head.got) head.left = some body) :
    if body.stop = .full then c.Receives script { c with incoming := body.left } (some body.got)
    else c.Receives script (IpcClient.disconnectOnError { c with incoming := body.left }) none := by
  have whole := (Stream.readFull_spec first).1
  have all := (Stream.readFull_spec second).1
  split
  · rename_i ended
    have got := Stream.readFull_take second ended
    have left : body.left = head.left.drop (headerValue head.got) := by
      have both : body.got ++ body.left = body.got ++ head.left.drop (headerValue head.got) := by
        rw [all, got, List.take_append_drop]
      exact List.append_cancel_left both
    rw [got, left]
    exact .message first stop length
  · refine .failed ⟨head.got ++ body.got, ?_⟩
    rw [List.append_assoc, all, whole]

theorem receives_of_receive (returned : c.receive script = some (c', message)) :
    c.Receives script c' message := by
  unfold IpcClient.receive at returned
  split at returned
  · rename_i closed
    cases returned
    exact .closed closed
  · obtain ⟨head, first, later⟩ := Option.bind_eq_some_iff.mp returned
    cases stop : head.stop with
    | again =>
      rw [stop] at later
      cases later
      exact .paused first stop
    | broken =>
      rw [stop] at later
      cases later
      exact .failed ⟨head.got, (Stream.readFull_spec first).1⟩
    | full =>
      simp only [stop] at later
      split at later
      · rename_i length
        cases later
        exact .refused first stop length
      · rename_i length
        obtain ⟨body, second, last⟩ := Option.bind_eq_some_iff.mp later
        have received := receives_body first stop (fun zero => length (Or.inl zero)) second
        split at last <;> rename_i ended
        · cases last
          rwa [if_pos ended] at received
        · cases last
          rwa [if_neg ended] at received

theorem receive_outgoing (returned : c.receive script = some (c', message)) :
    c'.outgoing = c.outgoing := by
  cases receives_of_receive returned <;> rfl

theorem receive_nothing (empty : c.incoming = [])
    (returned : c.receive script = some (c', message)) :
    message = none ∧ c'.incoming = [] ∧ c'.outgoing = c.outgoing := by
  have nothing {head : Stream.Read UInt8} (first : readFull script 4 c.incoming = some head) :
      head.got = [] ∧ head.left = [] := by
    have whole := (Stream.readFull_spec first).1
    rw [empty] at whole
    exact List.append_eq_nil_iff.mp whole
  cases receives_of_receive returned with
  | closed _ => exact ⟨rfl, empty, rfl⟩
  | paused first _ => exact ⟨rfl, (nothing first).2, rfl⟩
  | failed rest =>
    rw [empty] at rest
    exact ⟨rfl, List.suffix_nil.mp rest, rfl⟩
  | refused first _ _ => exact ⟨rfl, (nothing first).2, rfl⟩
  | message first _ length =>
    rw [(nothing first).1] at length
    exact absurd rfl length

theorem header_of_frame {body rest : List UInt8} (front : c.incoming = frame body ++ rest)
    (small : body.length ≤ messageLimit) (first : readFull script 4 c.incoming = some head)
    (stop : head.stop = .full) : headerValue head.got = body.length ∧ head.left = body ++ rest := by
  have whole := (Stream.readFull_spec first).1
  have got : head.got = header body.length := by
    rw [Stream.readFull_take first stop, front]
    rfl
  constructor
  · rw [got, Stream.headerValue_header]
    apply Nat.mod_eq_of_lt
    unfold messageLimit at small
    omega
  · rw [got, front, frame, List.append_assoc] at whole
    exact List.append_cancel_left whole

theorem receive_frame {body rest : List UInt8} (front : c.incoming = frame body ++ rest)
    (paused : ∀ n, delivery script 4 = some (n, .again) → n = 0)
    (fits : ∀ n, delivery script 4 = some (n, .full) → body.length ≤ messageLimit)
    (returned : c.receive script = some (c', message)) :
    c'.outgoing = c.outgoing ∧ (message = none ∧ c'.incoming = c.incoming ∨
      message = none ∧ c'.connected = false ∨
      c'.connected = c.connected ∧ c'.incoming = rest ∧
        message.toList = [body].filter (· ≠ [])) := by
  have enough : 4 ≤ c.incoming.length := by
    rw [front]
    simp only [frame, header, List.length_append, List.length_cons, List.length_nil]
    omega
  cases receives_of_receive returned with
  | closed _ => exact ⟨rfl, Or.inl ⟨rfl, rfl⟩⟩
  | failed _ => exact ⟨rfl, Or.inr (Or.inl ⟨rfl, rfl⟩)⟩
  | paused first stop =>
    have decided := Stream.readFull_delivery enough first
    rw [stop] at decided
    have whole := (Stream.readFull_spec first).1
    rw [List.length_eq_zero_iff.mp (paused _ decided)] at whole
    exact ⟨rfl, Or.inl ⟨rfl, whole⟩⟩
  | refused first stop length =>
    have decided := Stream.readFull_delivery enough first
    rw [stop] at decided
    have small := fits _ decided
    obtain ⟨value, left⟩ := header_of_frame front small first stop
    have empty : body = [] := by
      rcases length with zero | large
      · exact List.length_eq_zero_iff.mp (value.symm.trans zero)
      · omega
    refine ⟨rfl, Or.inr (Or.inr ⟨rfl, ?_, ?_⟩)⟩
    · rw [left, empty]
      rfl
    · simp [empty]
  | message first stop length =>
    have decided := Stream.readFull_delivery enough first
    rw [stop] at decided
    obtain ⟨value, left⟩ := header_of_frame front (fits _ decided) first stop
    have some_ : body ≠ [] := by
      rintro rfl
      exact length value
    refine ⟨rfl, Or.inr (Or.inr ⟨rfl, ?_, ?_⟩)⟩
    · rw [value, left, List.drop_left]
    · rw [value, left, List.take_left]
      simp [some_]

end Receive

section

variable {c c' : IpcClient} {message : List UInt8} {script : List Answer} {ok : Bool}
  (returned : c.send message script = some (c', ok))

include returned

theorem send_writes : c'.incoming = c.incoming ∧ c'.connected = c.connected ∧
      (c' = c ∧ ok = false ∨ c.connected = true ∧ ∃ out, c'.outgoing = c.outgoing ++ out ∧
        out <+: sentFrame message ∧ (ok = true → out = sentFrame message)) := by
  unfold IpcClient.send at returned
  split at returned
  · cases returned
    exact ⟨rfl, rfl, Or.inl ⟨rfl, rfl⟩⟩
  · rename_i connected
    have open_ : c.connected = true := Bool.not_eq_false _ ▸ connected
    obtain ⟨head, first, later⟩ := Option.bind_eq_some_iff.mp returned
    obtain ⟨begun, complete⟩ := Stream.writeFull_spec first
    split at later
    · cases later
      refine ⟨rfl, rfl, Or.inr ⟨open_, head.out, rfl, ?_, by simp⟩⟩
      exact begun.trans (List.prefix_append _ _)
    · rename_i done
      have whole := complete (Bool.not_eq_false _ ▸ done)
      obtain ⟨body, second, last⟩ := Option.bind_eq_some_iff.mp later
      obtain ⟨more, rest⟩ := Stream.writeFull_spec second
      cases last
      refine ⟨rfl, rfl, Or.inr ⟨open_, head.out ++ body.out, ?_, ?_, ?_⟩⟩
      · simp only [List.append_assoc]
      · rw [whole]
        exact (List.prefix_append_right_inj _).mpr more
      · intro ok
        rw [whole, rest ok]
        rfl

theorem send_unbroken (whole : unbroken message script = true) :
    ok = true ∨ c'.outgoing = c.outgoing := by
  unfold IpcClient.send at returned
  split at returned
  · cases returned
    exact Or.inr rfl
  · obtain ⟨head, first, later⟩ := Option.bind_eq_some_iff.mp returned
    rw [unbroken, first, Option.all_some] at whole
    split at later
    · rename_i cut
      rw [cut] at whole
      cases later
      exact Or.inr (by simp [List.isEmpty_iff.mp whole])
    · rename_i done
      obtain ⟨body, second, last⟩ := Option.bind_eq_some_iff.mp later
      rw [if_pos (Bool.not_eq_false _ ▸ done), second, Option.all_some] at whole
      cases last
      exact Or.inl whole

end

section

variable {frames : List (List UInt8)} {r r' : IpcRun} {message : List UInt8} {script : List Answer}

theorem IpcRun.Aligned.unmoved {c' : IpcClient} (aligned : r.Aligned frames)
    (out : c'.outgoing = r.client.outgoing) (still : c'.connected = true →
      r.client.connected = true ∧ c'.incoming = r.client.incoming) :
    IpcRun.Aligned frames ⟨c', r.messages ++ (none : Option (List UInt8)).toList, r.delivered,
      if c'.connected = true ∧ c'.incoming ≠ r.client.incoming then r.unread.tail
      else r.unread⟩ := by
  have stays : ¬(c'.connected = true ∧ c'.incoming ≠ r.client.incoming) := by
    rintro ⟨connected, moved⟩
    exact moved (still connected).2
  rw [if_neg stays]
  refine ⟨?_, ?_, ?_⟩
  · simpa using aligned.passed
  · intro connected
    obtain ⟨before, same⟩ := still connected
    exact same.trans (aligned.incoming before)
  · simpa only [out] using aligned.outgoing

theorem aligned_receive (aligned : r.Aligned frames) (moved : r.next (.receive script) = some r')
    (quiet : calm r (.receive script) = true) : r'.Aligned frames := by
  obtain ⟨⟨c', message⟩, returned, rfl⟩ := Option.map_eq_some_iff.mp moved
  cases connected : r.client.connected with
  | false =>
    rw [receive_closed connected script] at returned
    cases returned
    exact aligned.unmoved rfl (fun open_ => ⟨open_, rfl⟩)
  | true =>
    have front := aligned.incoming connected
    cases unread : r.unread with
    | nil =>
      rw [unread] at front
      obtain ⟨rfl, still, out⟩ := receive_nothing front returned
      exact unread ▸ aligned.unmoved out (fun _ => ⟨connected, still.trans front.symm⟩)
    | cons body rest =>
      rw [unread, List.flatMap_cons] at front
      have paused : ∀ n, delivery script 4 = some (n, .again) → n = 0 := by
        intro n paused
        simpa [calm, paused] using quiet
      have fits : ∀ n, delivery script 4 = some (n, .full) → body.length ≤ messageLimit := by
        intro n full
        simpa [calm, full, unread] using quiet
      obtain ⟨out, ⟨rfl, same⟩ | ⟨rfl, closed⟩ | ⟨kept, left, yielded⟩⟩ :=
        receive_frame front paused fits returned
      · exact unread ▸ aligned.unmoved out (fun _ => ⟨connected, same⟩)
      · exact unread ▸ aligned.unmoved out (by simp [closed])
      · have shorter : c'.incoming ≠ r.client.incoming := by
          intro same
          have lengths := congrArg List.length same
          rw [left, front] at lengths
          simp only [frame, header, List.length_append, List.length_cons, List.length_nil] at lengths
          omega
        have alive : c'.connected = true := kept.trans connected
        obtain ⟨passed, split_, messages⟩ := aligned.passed
        refine ⟨⟨passed ++ [body], ?_, ?_⟩, ?_, ?_⟩
        · simpa [alive, shorter, unread] using split_
        · rw [List.filter_append, ← messages, ← yielded]
        · intro _
          simpa [alive, shorter] using left
        · simpa [out] using aligned.outgoing

theorem aligned_send (aligned : r.Aligned frames) (moved : r.next (.send message script) = some r')
    (quiet : calm r (.send message script) = true) : r'.Aligned frames := by
  obtain ⟨⟨c', ok⟩, returned, rfl⟩ := Option.map_eq_some_iff.mp moved
  obtain ⟨incoming, connected, nothing | ⟨open_, out, written, part, whole⟩⟩ := send_writes returned
  · obtain ⟨rfl, rfl⟩ := nothing
    exact ⟨aligned.passed, aligned.incoming, aligned.outgoing⟩
  · have border : r.client.outgoing = r.delivered.flatMap sentFrame := by
      simpa [calm, open_] using quiet
    refine ⟨aligned.passed, ?_, ?_⟩
    · simpa only [incoming, connected] using aligned.incoming
    · cases ok with
      | true =>
        refine ⟨[], [], List.nil_prefix, ?_⟩
        simp [written, border, whole rfl]
      | false => exact ⟨out, message, part, by simp [written, border]⟩

theorem aligned_next {call : IpcCall} (aligned : r.Aligned frames) (moved : r.next call = some r')
    (quiet : calm r call = true) : r'.Aligned frames := by
  cases call with
  | receive script => exact aligned_receive aligned moved quiet
  | send message script => exact aligned_send aligned moved quiet

theorem border_next {call : IpcCall} (moved : r.next call = some r')
    (quiet : calmAnswers r call = true)
    (border : r.client.outgoing = r.delivered.flatMap sentFrame) :
    calm r call = true ∧ r'.client.outgoing = r'.delivered.flatMap sentFrame := by
  cases call with
  | receive script =>
    obtain ⟨⟨c', message⟩, returned, rfl⟩ := Option.map_eq_some_iff.mp moved
    exact ⟨quiet, (receive_outgoing returned).trans border⟩
  | send message script =>
    refine ⟨decide_eq_true (Or.inr border), ?_⟩
    obtain ⟨⟨c', ok⟩, returned, rfl⟩ := Option.map_eq_some_iff.mp moved
    obtain ⟨-, -, ⟨rfl, rfl⟩ | ⟨-, out, written, -, whole⟩⟩ := send_writes returned
    · exact border
    · cases ok with
      | true => simp [written, border, whole rfl]
      | false =>
        have still := (send_unbroken returned quiet).resolve_left Bool.false_ne_true
        simp [still, border]

end

theorem aligned_start (frames : List (List UInt8)) : (IpcRun.start frames).Aligned frames :=
  ⟨⟨[], rfl, rfl⟩, fun _ => rfl, ⟨[], [], List.nil_prefix, rfl⟩⟩

/-- Whatever the pieces in which the socket moves the bytes, and wherever it
fails: every message is a whole frame, in order, and the stream stays at the
border of a frame as long as the connection is open. -/
theorem ipc_frames_aligned (frames : List (List UInt8)) (r : IpcRun) :
    (Reach (IpcRun.start frames = ·)
        (Guarded (Runs IpcRun.next) (fun r call => calm r call = true)) r →
      r.Aligned frames) ∧
    (Reach (IpcRun.start frames = ·)
        (Guarded (Runs IpcRun.next)
          (fun r call => calmAnswers r call = true)) r →
      r.Aligned frames ∧ r.client.outgoing = r.delivered.flatMap sentFrame) := by
  constructor
  · refine reach_invariant (IpcRun.Aligned frames) ?_ ?_
    · rintro r rfl
      exact aligned_start frames
    · rintro r call r' aligned ⟨moved, quiet⟩
      exact aligned_next aligned moved quiet
  · refine reach_invariant (fun r : IpcRun =>
      r.Aligned frames ∧ r.client.outgoing = r.delivered.flatMap sentFrame) ?_ ?_
    · rintro r rfl
      exact ⟨aligned_start frames, rfl⟩
    · rintro r call r' ⟨aligned, border⟩ ⟨moved, quiet⟩
      obtain ⟨able, after⟩ := border_next moved quiet border
      exact ⟨aligned_next aligned moved able, after⟩

def brokenUp : List IpcCall :=
  [.receive [.moved 1, .moved 9, .moved 0, .moved 9], .receive [.again], .receive [.moved 3],
    .send [4] [.failed], .send [5, 6] [.moved 0, .moved 2, .moved 9]]

theorem ipc_frames_aligned_brokenUp :
    (∃ r : IpcRun, r.messages = [[7, 8]] ∧ r.client.connected = true ∧
      r.Aligned [[7, 8], [], [9]]) ∧
    ∃ r : IpcRun, r.delivered = [[5, 6]] ∧ r.Aligned [[7, 8], [], [9]] ∧
      r.client.outgoing = r.delivered.flatMap sentFrame := by
  constructor
  · obtain ⟨r, reached, messages, connected⟩ := reach_of_replay IpcRun.next
      (fun r call => calm r call = true) (.start (rfl : IpcRun.start [[7, 8], [], [9]] = _)) brokenUp
      (fun r => r.messages = [[7, 8]] ∧ r.client.connected = true) (by decide)
    exact ⟨r, messages, connected, (ipc_frames_aligned _ r).1 reached⟩
  · obtain ⟨r, reached, delivered⟩ := reach_of_replay IpcRun.next
      (fun r call => calmAnswers r call = true) (.start (rfl : IpcRun.start [[7, 8], [], [9]] = _))
      brokenUp (fun r => r.delivered = [[5, 6]]) (by decide)
    exact ⟨r, delivered, (ipc_frames_aligned _ r).2 reached⟩

theorem header_timeout_misaligns : ∃ r : IpcRun,
    IpcRun.next (.start [[7], [8]]) (.receive [.moved 0, .again]) = some r ∧
      r.messages = [] ∧ r.client.connected = true ∧
      ∀ k, r.client.incoming ≠ ([[7], [8]].drop k).flatMap frame := by
  refine ⟨_, rfl, rfl, rfl, ?_⟩
  intro k
  match k with
  | 0 => decide
  | 1 => decide
  | k + 2 => simp [IpcRun.start]; decide

end P2PSync
