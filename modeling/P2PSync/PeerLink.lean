import Mathlib.Data.List.AList
import P2PSync.Messages
import P2PSync.Library.Transition

/-! The bytes on the connections between peers. A call of SendToPeer reads the
connection and its mutex from two tables and writes under the mutex; in the meantime the
peer may be registered anew, with another connection and another mutex, or be closed. A
connection on which a write failed takes no more bytes: there are no deadlines on
writes, so the error stays. -/
namespace P2PSync

open Transition
open Stream (Answer frame Moves)

structure Link where
  out : List UInt8
  ended : Bool
  /-- History: what WriteMessage has returned without an error for. -/
  sent : List (List UInt8)
  deriving DecidableEq, Repr

structure Writing where
  conn : Nat
  data : List UInt8
  rest : List UInt8
  deriving DecidableEq, Repr

structure PairedCall where
  conn : Nat
  mu : Nat
  data : List UInt8
  deriving DecidableEq, Repr

structure PeerLinks where
  connections : AList fun _ : String => Nat
  writeMus : AList fun _ : String => Nat
  links : List Link
  mutexes : List (Option Writing)
  /-- The calls of SendToPeer before the tables are read, and before the mutex is locked. -/
  calls : List (String × List UInt8)
  paired : List PairedCall

inductive LinkEvent where
  /-- The end of Connect or of handleIncomingConnection, which have written the handshake. -/
  | register (peerID : String) (handshake : List UInt8)
  | sendToPeer (peerID : String) (data : List UInt8)
  | lookUp (i : Nat)
  | lock (i : Nat)
  /-- The holder of a mutex gets some bytes out, comes to the end of its frame, or fails. -/
  | write (mu n : Nat)
  | finish (mu : Nat)
  | fail (mu : Nat)
  | closeConnection (peerID : String)
  | closeConnectionIfMatch (peerID : String) (conn : Nat)
  | stop
  deriving DecidableEq, Repr

namespace PeerLinks

def new : PeerLinks := ⟨∅, ∅, [], [], [], []⟩

def endLink (links : List Link) (conn : Nat) : List Link :=
  links.modify conn (fun link => { link with ended := true })

def register (s : PeerLinks) (peerID : String) (handshake : List UInt8) : PeerLinks :=
  let links := match s.connections.lookup peerID with
    | some old => endLink s.links old
    | none => s.links
  { s with
    connections := s.connections.insert peerID links.length
    writeMus := s.writeMus.insert peerID s.mutexes.length
    links := links ++ [⟨frame handshake, false, [handshake]⟩]
    mutexes := s.mutexes ++ [none] }

def close (s : PeerLinks) (peerID : String) (conn : Nat) : PeerLinks :=
  { s with
    connections := s.connections.erase peerID
    writeMus := s.writeMus.erase peerID
    links := endLink s.links conn }

def stop (s : PeerLinks) : PeerLinks :=
  { s with
    connections := ∅
    links := s.connections.entries.foldl (fun links e => endLink links e.2) s.links }

def next (s : PeerLinks) : LinkEvent → Option PeerLinks
  | .register peerID handshake => some (s.register peerID handshake)
  | .sendToPeer peerID data => some { s with calls := s.calls ++ [(peerID, data)] }
  | .lookUp i =>
    s.calls[i]?.map fun (peerID, data) =>
      let s' := { s with calls := s.calls.eraseIdx i }
      match s.connections.lookup peerID, s.writeMus.lookup peerID with
      | some conn, some mu => { s' with paired := s.paired ++ [⟨conn, mu, data⟩] }
      | _, _ => s'
  | .lock i =>
    s.paired[i]?.bind fun call =>
      if s.mutexes[call.mu]? = some none then
        some { s with
          paired := s.paired.eraseIdx i
          mutexes := s.mutexes.set call.mu (some ⟨call.conn, call.data, frame call.data⟩) }
      else none
  | .write mu n =>
    s.mutexes[mu]?.join.bind fun w =>
      s.links[w.conn]?.bind fun link =>
        if link.ended = false ∧ 0 < n ∧ n ≤ w.rest.length then
          some { s with
            mutexes := s.mutexes.set mu (some { w with rest := w.rest.drop n })
            links := s.links.set w.conn { link with out := link.out ++ w.rest.take n } }
        else none
  | .finish mu =>
    s.mutexes[mu]?.join.bind fun w =>
      s.links[w.conn]?.bind fun link =>
        if w.rest = [] then
          some { s with
            mutexes := s.mutexes.set mu none
            links := s.links.set w.conn { link with sent := link.sent ++ [w.data] } }
        else none
  | .fail mu =>
    s.mutexes[mu]?.join.bind fun w =>
      if w.rest = [] then none
      else some { s with
        mutexes := s.mutexes.set mu none
        links := endLink s.links w.conn }
  | .closeConnection peerID => (s.connections.lookup peerID).map (s.close peerID)
  | .closeConnectionIfMatch peerID conn =>
    if s.connections.lookup peerID = some conn then some (s.close peerID conn) else none
  | .stop => some s.stop

def Initial (s : PeerLinks) : Prop := s = new

theorem new_initial : new.Initial := rfl

variable {s s' : PeerLinks} {event : LinkEvent}

/-- A connection and its mutex are made together, so they have the same number wherever a
call finds both. -/
structure Matched (s : PeerLinks) : Prop where
  made : s.mutexes.length = s.links.length
  known : ∀ peerID conn, s.connections.lookup peerID = some conn → conn < s.links.length
  tables : ∀ peerID conn mu, s.connections.lookup peerID = some conn →
    s.writeMus.lookup peerID = some mu → mu = conn
  paired : ∀ call ∈ s.paired, call.mu = call.conn
  holders : ∀ (mu : Nat) (w : Writing), s.mutexes[mu]? = some (some w) → w.conn = mu

/-- What is on a connection: the frames of the calls that have returned, and a piece of one
more. The piece belongs to the call that writes, or to one that has failed. -/
inductive Torn (link : Link) (holder : Option Writing) : List UInt8 → Prop where
  | none (idle : ∀ w, holder = some w → w.rest = frame w.data) : Torn link holder []
  | writing {w : Writing} {torn : List UInt8} (holds : holder = some w)
      (part : torn ++ w.rest = frame w.data) : Torn link holder torn
  | failed {data torn rest : List UInt8} (ended : link.ended = true) (part : torn ++ rest = frame data)
      (cut : rest ≠ []) (idle : ∀ w, holder = some w → w.rest = frame w.data) :
      Torn link holder torn

def Whole (link : Link) (holder : Option Writing) : Prop :=
  ∃ torn, link.out = link.sent.flatMap frame ++ torn ∧ Torn link holder torn

def Intact (s : PeerLinks) : Prop :=
  ∀ (conn : Nat) (link : Link) (holder : Option Writing), s.links[conn]? = some link →
    s.mutexes[conn]? = some holder → Whole link holder

inductive Moved (s : PeerLinks) : LinkEvent → PeerLinks → Prop where
  | register (peerID : String) (handshake : List UInt8) :
      Moved s (.register peerID handshake) (s.register peerID handshake)
  | sendToPeer (peerID : String) (data : List UInt8) :
      Moved s (.sendToPeer peerID data) { s with calls := s.calls ++ [(peerID, data)] }
  | missing {i : Nat} : Moved s (.lookUp i) { s with calls := s.calls.eraseIdx i }
  | found {i : Nat} {peerID : String} {data : List UInt8} {conn mu : Nat}
      (connection : s.connections.lookup peerID = some conn)
      (mutex : s.writeMus.lookup peerID = some mu) :
      Moved s (.lookUp i)
        { s with calls := s.calls.eraseIdx i, paired := s.paired ++ [⟨conn, mu, data⟩] }
  | lock {i : Nat} {call : PairedCall} (at_ : s.paired[i]? = some call)
      (free : s.mutexes[call.mu]? = some none) :
      Moved s (.lock i)
        { s with
          paired := s.paired.eraseIdx i
          mutexes := s.mutexes.set call.mu (some ⟨call.conn, call.data, frame call.data⟩) }
  | write {mu n : Nat} {w : Writing} {link : Link} (holds : s.mutexes[mu]? = some (some w))
      (at_ : s.links[w.conn]? = some link) (open_ : link.ended = false) :
      Moved s (.write mu n)
        { s with
          mutexes := s.mutexes.set mu (some { w with rest := w.rest.drop n })
          links := s.links.set w.conn { link with out := link.out ++ w.rest.take n } }
  | finish {mu : Nat} {w : Writing} {link : Link} (holds : s.mutexes[mu]? = some (some w))
      (at_ : s.links[w.conn]? = some link) (all : w.rest = []) :
      Moved s (.finish mu)
        { s with
          mutexes := s.mutexes.set mu none
          links := s.links.set w.conn { link with sent := link.sent ++ [w.data] } }
  | fail {mu : Nat} {w : Writing} (holds : s.mutexes[mu]? = some (some w)) (part : w.rest ≠ []) :
      Moved s (.fail mu)
        { s with mutexes := s.mutexes.set mu none, links := endLink s.links w.conn }
  | close {event : LinkEvent} {peerID : String} {conn : Nat} : Moved s event (s.close peerID conn)
  | stop : Moved s .stop s.stop

theorem moved_of_next (moved : s.next event = some s') : Moved s event s' := by
  cases event with
  | register peerID handshake =>
    cases moved
    exact .register peerID handshake
  | sendToPeer peerID data =>
    cases moved
    exact .sendToPeer peerID data
  | lookUp i =>
    obtain ⟨⟨peerID, data⟩, at_, rfl⟩ := Option.map_eq_some_iff.mp moved
    simp only
    split
    · exact .found ‹_› ‹_›
    · exact .missing
  | lock i =>
    obtain ⟨call, at_, moved⟩ := Option.bind_eq_some_iff.mp moved
    split at moved
    · cases moved
      exact .lock at_ ‹_›
    · cases moved
  | write mu n =>
    obtain ⟨w, holds, moved⟩ := Option.bind_eq_some_iff.mp moved
    obtain ⟨link, at_, moved⟩ := Option.bind_eq_some_iff.mp moved
    split at moved
    · rename_i able
      cases moved
      exact .write (Option.join_eq_some_iff.mp holds) at_ able.1
    · cases moved
  | finish mu =>
    obtain ⟨w, holds, moved⟩ := Option.bind_eq_some_iff.mp moved
    obtain ⟨link, at_, moved⟩ := Option.bind_eq_some_iff.mp moved
    split at moved
    · cases moved
      exact .finish (Option.join_eq_some_iff.mp holds) at_ ‹_›
    · cases moved
  | fail mu =>
    obtain ⟨w, holds, moved⟩ := Option.bind_eq_some_iff.mp moved
    split at moved
    · cases moved
    · cases moved
      exact .fail (Option.join_eq_some_iff.mp holds) ‹_›
  | closeConnection peerID =>
    obtain ⟨conn, -, rfl⟩ := Option.map_eq_some_iff.mp moved
    exact .close
  | closeConnectionIfMatch peerID conn =>
    simp only [next] at moved
    split at moved
    · cases moved
      exact .close
    · cases moved
  | stop =>
    cases moved
    exact .stop

/-! Closing changes nothing but that a connection has ended. -/

def Ends (links links' : List Link) : Prop :=
  links'.length = links.length ∧ ∀ (conn : Nat) (link' : Link), links'[conn]? = some link' →
    ∃ link, links[conn]? = some link ∧ link'.out = link.out ∧ link'.sent = link.sent ∧
      (link.ended = true → link'.ended = true)

theorem Ends.refl (links : List Link) : Ends links links :=
  ⟨rfl, fun _ link at_ => ⟨link, at_, rfl, rfl, id⟩⟩

theorem Ends.trans {a b c : List Link} (first : Ends a b) (second : Ends b c) : Ends a c := by
  refine ⟨second.1.trans first.1, fun conn link'' at_ => ?_⟩
  obtain ⟨link', at_', out', sent', ended'⟩ := second.2 conn link'' at_
  obtain ⟨link, at_'', out, sent, ended⟩ := first.2 conn link' at_'
  exact ⟨link, at_'', out'.trans out, sent'.trans sent, ended' ∘ ended⟩

theorem ends_endLink (links : List Link) (conn : Nat) : Ends links (endLink links conn) := by
  refine ⟨List.length_modify .., fun i link' at_ => ?_⟩
  rw [endLink, List.getElem?_modify] at at_
  obtain ⟨link, before, rfl⟩ := Option.map_eq_some_iff.mp at_
  refine ⟨link, before, ?_⟩
  split
  · exact ⟨rfl, rfl, fun _ => rfl⟩
  · exact ⟨rfl, rfl, id⟩

theorem ends_foldl (links : List Link) (entries : List (Sigma fun _ : String => Nat)) :
    Ends links (entries.foldl (fun links e => endLink links e.2) links) := by
  induction entries generalizing links with
  | nil => exact Ends.refl links
  | cons e entries ih => exact (ends_endLink links e.2).trans (ih _)

theorem Whole.ends {link link' : Link} {holder : Option Writing} (whole : Whole link holder)
    (out : link'.out = link.out) (sent : link'.sent = link.sent)
    (ended : link.ended = true → link'.ended = true) : Whole link' holder := by
  obtain ⟨torn, bytes, part⟩ := whole
  refine ⟨torn, by rw [out, sent, bytes], ?_⟩
  cases part with
  | none idle => exact .none idle
  | writing holds part => exact .writing holds part
  | failed stopped part cut idle => exact .failed (ended stopped) part cut idle

theorem ends_register (s : PeerLinks) (peerID : String) :
    Ends s.links (match s.connections.lookup peerID with
      | some old => endLink s.links old
      | none => s.links) := by
  split
  · exact ends_endLink s.links _
  · exact Ends.refl s.links

theorem matched_register (matched : s.Matched) (peerID : String) (handshake : List UInt8) :
    (s.register peerID handshake).Matched := by
  have length := (ends_register s peerID).1
  refine ⟨?_, ?_, ?_, matched.paired, ?_⟩
  · simp only [register, List.length_append, length, matched.made, List.length_singleton]
  · intro other conn found
    simp only [register, List.length_append, length, List.length_singleton] at found ⊢
    rcases eq_or_ne other peerID with rfl | ne
    · rw [AList.lookup_insert] at found
      cases found
      omega
    · rw [AList.lookup_insert_ne ne] at found
      have known := matched.known other conn found
      omega
  · intro other conn mu connection mutex
    simp only [register] at connection mutex
    rcases eq_or_ne other peerID with rfl | ne
    · rw [AList.lookup_insert] at connection mutex
      cases connection
      cases mutex
      rw [matched.made, length]
    · rw [AList.lookup_insert_ne ne] at connection mutex
      exact matched.tables other conn mu connection mutex
  · intro mu w holds
    simp only [register] at holds
    rcases lt_or_ge mu s.mutexes.length with old | new
    · rw [List.getElem?_append_left old] at holds
      exact matched.holders mu w holds
    · rw [List.getElem?_append_right new] at holds
      cases List.mem_singleton.mp (List.mem_of_getElem? holds)

theorem matched_close (matched : s.Matched) (peerID : String) (conn : Nat) :
    (s.close peerID conn).Matched := by
  have length := (ends_endLink s.links conn).1
  have erased {entries : AList fun _ : String => Nat} {other : String} {n : Nat}
      (found : (entries.erase peerID).lookup other = some n) : entries.lookup other = some n := by
    rcases eq_or_ne other peerID with rfl | ne
    · rw [AList.lookup_erase] at found
      cases found
    · rwa [AList.lookup_erase_ne ne] at found
  refine ⟨matched.made.trans length.symm, fun other c found => ?_, fun other c mu connection mutex =>
    matched.tables other c mu (erased connection) (erased mutex), matched.paired, matched.holders⟩
  exact length ▸ matched.known other c (erased found)

theorem matched_set (matched : s.Matched) {mu : Nat} {holder : Option Writing} {links : List Link}
    (length : links.length = s.links.length) (own : ∀ w, holder = some w → w.conn = mu) :
    { s with mutexes := s.mutexes.set mu holder, links := links : PeerLinks }.Matched := by
  refine ⟨?_, fun peerID conn found => ?_, matched.tables, matched.paired, ?_⟩
  · rw [List.length_set, matched.made, length]
  · exact length ▸ matched.known peerID conn found
  · intro other w holds
    simp only [List.getElem?_set] at holds
    split at holds
    · rename_i same
      split at holds
      · rw [← same]
        exact own w (Option.some.inj holds)
      · cases holds
    · exact matched.holders other w holds

theorem matched_next (matched : s.Matched) (moved : s.next event = some s') : s'.Matched := by
  cases moved_of_next moved with
  | register peerID handshake => exact matched_register matched peerID handshake
  | sendToPeer | missing =>
    exact ⟨matched.made, matched.known, matched.tables, matched.paired, matched.holders⟩
  | @found i peerID data conn mu connection mutex =>
    refine ⟨matched.made, matched.known, matched.tables, fun call member => ?_, matched.holders⟩
    rcases List.mem_append.mp member with old | new
    · exact matched.paired call old
    · cases List.mem_singleton.mp new
      exact matched.tables peerID conn mu connection mutex
  | @lock i call at_ free =>
    have own := matched.paired call (List.mem_of_getElem? at_)
    have after : { s with
        mutexes := s.mutexes.set call.mu (some ⟨call.conn, call.data, frame call.data⟩)
        : PeerLinks }.Matched := by
      refine matched_set matched rfl (fun w same => ?_)
      cases same
      exact own.symm
    exact ⟨after.made, after.known, after.tables,
      fun c member => matched.paired c (List.mem_of_mem_eraseIdx member), after.holders⟩
  | @write mu n w link holds at_ open_ =>
    refine matched_set matched (List.length_set ..) (fun _ same => ?_)
    cases same
    exact matched.holders mu w holds
  | finish holds at_ all =>
    exact matched_set matched (List.length_set ..) (fun w none => by cases none)
  | fail holds part =>
    exact matched_set matched (ends_endLink ..).1 (fun w none => by cases none)
  | close => exact matched_close matched _ _
  | stop =>
    have length := (ends_foldl s.links s.connections.entries).1
    refine ⟨matched.made.trans length.symm, ?_, ?_, matched.paired, matched.holders⟩
    · intro peerID conn none
      cases none
    · intro peerID conn mu none
      cases none

theorem frame_ne_nil (data : List UInt8) : frame data ≠ [] :=
  List.cons_ne_nil _ _

theorem Whole.lock {link : Link} (whole : Whole link none) (conn : Nat) (data : List UInt8) :
    Whole link (some ⟨conn, data, frame data⟩) := by
  obtain ⟨torn, bytes, part⟩ := whole
  have idle : ∀ w, some (⟨conn, data, frame data⟩ : Writing) = some w → w.rest = frame w.data := by
    rintro _ ⟨⟩
    rfl
  refine ⟨torn, bytes, ?_⟩
  cases part with
  | none => exact .none idle
  | writing holds => cases holds
  | failed ended part cut => exact .failed ended part cut idle

section

variable {link link' : Link} {w : Writing} (whole : Whole link (some w))

include whole

theorem Whole.write (open_ : link.ended = false) (n : Nat) :
    Whole { link with out := link.out ++ w.rest.take n }
      (some { w with rest := w.rest.drop n }) := by
  obtain ⟨torn, bytes, part⟩ := whole
  refine ⟨torn ++ w.rest.take n, ?_, .writing rfl ?_⟩
  · rw [bytes, List.append_assoc]
  · rw [List.append_assoc, List.take_append_drop]
    cases part with
    | none idle => exact idle w rfl
    | writing holds part =>
      cases holds
      exact part
    | failed ended => cases open_.symm.trans ended

theorem Whole.finish (all : w.rest = []) :
    Whole { link with sent := link.sent ++ [w.data] } none := by
  obtain ⟨torn, bytes, part⟩ := whole
  have written : torn = frame w.data := by
    cases part with
    | none idle | failed _ _ _ idle => exact absurd ((idle w rfl).symm.trans all) (frame_ne_nil _)
    | writing holds part =>
      cases holds
      rwa [all, List.append_nil] at part
  refine ⟨[], ?_, .none (fun w none => by cases none)⟩
  rw [bytes, written, List.flatMap_append, List.flatMap_singleton, List.append_nil]

theorem Whole.fail (cut : w.rest ≠ []) (out : link'.out = link.out) (sent : link'.sent = link.sent)
    (ended : link'.ended = true) : Whole link' none := by
  obtain ⟨torn, bytes, part⟩ := whole
  have idle : ∀ w, (none : Option Writing) = some w → w.rest = frame w.data := by
    intro w none
    cases none
  refine ⟨torn, by rw [out, sent, bytes], ?_⟩
  cases part with
  | none => exact .none idle
  | writing holds part =>
    cases holds
    exact .failed ended part cut idle
  | failed _ part cut => exact .failed ended part cut idle

end

theorem intact_at (intact : s.Intact) {conn : Nat}
    (others : ∀ i ≠ conn, s'.links[i]? = s.links[i]? ∧ s'.mutexes[i]? = s.mutexes[i]?)
    (own : ∀ link holder, s'.links[conn]? = some link → s'.mutexes[conn]? = some holder →
      Whole link holder) : s'.Intact := by
  intro other link holder at_ holds
  rcases eq_or_ne other conn with rfl | ne
  · exact own link holder at_ holds
  · rw [(others other ne).1] at at_
    rw [(others other ne).2] at holds
    exact intact other link holder at_ holds

theorem intact_next (matched : s.Matched) (intact : s.Intact) (moved : s.next event = some s') :
    s'.Intact := by
  cases moved_of_next moved with
  | register peerID handshake =>
    have ends := ends_register s peerID
    intro conn link holder at_ holds
    simp only [register] at at_ holds
    rcases lt_or_ge conn s.links.length with old | new
    · rw [List.getElem?_append_left (ends.1.symm ▸ old)] at at_
      rw [List.getElem?_append_left (matched.made.symm ▸ old)] at holds
      obtain ⟨link₀, before, out, sent, ended⟩ := ends.2 conn link at_
      exact (intact conn link₀ holder before holds).ends out sent ended
    · rw [List.getElem?_append_right (ends.1.symm ▸ new)] at at_
      rw [List.getElem?_append_right (matched.made.symm ▸ new)] at holds
      cases List.mem_singleton.mp (List.mem_of_getElem? at_)
      cases List.mem_singleton.mp (List.mem_of_getElem? holds)
      exact ⟨[], by simp, .none (fun w none => by cases none)⟩
  | sendToPeer | missing | found => exact intact
  | @lock i call at_ free =>
    refine intact_at intact (fun i ne => ⟨rfl, List.getElem?_set_ne ne.symm⟩) ?_
    intro link holder at_ holds
    rw [List.getElem?_set_self' , free] at holds
    cases holds
    exact (intact call.mu link none at_ free).lock call.conn call.data
  | @write mu n w link holds at_ open_ =>
    obtain rfl := matched.holders mu w holds
    refine intact_at intact
      (fun i ne => ⟨List.getElem?_set_ne ne.symm, List.getElem?_set_ne ne.symm⟩) ?_
    intro link' holder at_' holds'
    rw [List.getElem?_set_self', at_] at at_'
    rw [List.getElem?_set_self', holds] at holds'
    cases at_'
    cases holds'
    exact (intact w.conn link (some w) at_ holds).write open_ n
  | @finish mu w link holds at_ all =>
    obtain rfl := matched.holders mu w holds
    refine intact_at intact
      (fun i ne => ⟨List.getElem?_set_ne ne.symm, List.getElem?_set_ne ne.symm⟩) ?_
    intro link' holder at_' holds'
    rw [List.getElem?_set_self', at_] at at_'
    rw [List.getElem?_set_self', holds] at holds'
    cases at_'
    cases holds'
    exact (intact w.conn link (some w) at_ holds).finish all
  | @fail mu w holds part =>
    obtain rfl := matched.holders mu w holds
    refine intact_at intact
      (fun i ne => ⟨List.getElem?_modify_ne _ _ ne.symm, List.getElem?_set_ne ne.symm⟩) ?_
    intro link' holder at_' holds'
    rw [endLink, List.getElem?_modify_eq] at at_'
    obtain ⟨link, at_, rfl⟩ := Option.map_eq_some_iff.mp at_'
    rw [List.getElem?_set_self', holds] at holds'
    cases holds'
    exact (intact w.conn link (some w) at_ holds).fail part rfl rfl rfl
  | @close _ peerID conn =>
    intro other link holder at_ holds
    obtain ⟨link₀, before, out, sent, ended⟩ := (ends_endLink s.links conn).2 other link at_
    exact (intact other link₀ holder before holds).ends out sent ended
  | stop =>
    intro conn link holder at_ holds
    obtain ⟨link₀, before, out, sent, ended⟩ :=
      (ends_foldl s.links s.connections.entries).2 conn link at_
    exact (intact conn link₀ holder before holds).ends out sent ended

theorem intact_reach (reached : Reach Initial (Runs next) s) : s.Matched ∧ s.Intact := by
  refine reach_invariant (fun s => s.Matched ∧ s.Intact) ?_ ?_ reached
  · rintro s rfl
    refine ⟨⟨rfl, ?_, ?_, ?_, ?_⟩, ?_⟩
    all_goals simp [new, Intact]
  · rintro s event s' ⟨matched, intact⟩ moved
    exact ⟨matched_next matched moved, intact_next matched intact moved⟩

end PeerLinks

section Results

variable {json : JsonCodec}

theorem readMessage_torn {torn data : List UInt8} (part : torn <+: frame data)
    (cut : torn ≠ frame data) (small : data.length < 2 ^ 32) {script : List Answer}
    {r : MessageRead} (returned : readMessage json script torn = some r) (m : Message) :
    r.result ≠ .ok m := by
  intro ok
  obtain ⟨lenBuf, body, split, four, length, -⟩ := readMessage_sound returned ok
  have head : lenBuf = Stream.header data.length := by
    have front : lenBuf <+: Stream.header data.length ++ data :=
      (List.prefix_append lenBuf (body ++ r.left)).trans (by rwa [← List.append_assoc, ← split])
    rw [List.prefix_iff_eq_take.mp front, four]
    exact List.take_left' rfl
  rw [head, Stream.headerValue_header, Nat.mod_eq_of_lt small] at length
  apply cut
  apply part.eq_of_length_le
  rw [split, frame, List.length_append, List.length_append, List.length_append, head, length]
  omega

/-- Whatever calls write to a peer at once, its connection carries their frames one after the
other and a piece of at most one more. The other end reads the messages of the calls that
returned without an error, up to the first that is over its limit. -/
theorem peer_link_intact {s : PeerLinks}
    (reached : Reach PeerLinks.Initial (Runs PeerLinks.next) s) :
    (∀ (conn : Nat) (link : Link), s.links[conn]? = some link → ∃ torn data,
      link.out = link.sent.flatMap frame ++ torn ∧
      torn <+: frame data ∧ (s.mutexes[conn]? = some none → torn ≠ frame data) ∧
      (torn ≠ frame data → data.length < 2 ^ 32 → ∀ script r m,
        readMessage json script torn = some r → r.result ≠ .ok m) ∧
      ∀ msgs datas later reads, link.sent = datas ++ later → List.Forall₂ (Fits json) msgs datas →
        Moves reads → link.out.length ≤ reads.length →
        ∃ received rest, List.Forall₂ json.Same msgs received ∧
          readMessages json msgs.length reads link.out =
            some ⟨received, later.flatMap frame ++ torn, rest⟩) ∧
    (∀ call ∈ s.paired, call.mu = call.conn) ∧
    ∀ (mu : Nat) (w : Writing), s.mutexes[mu]? = some (some w) → w.conn = mu := by
  obtain ⟨matched, intact⟩ := PeerLinks.intact_reach reached
  refine ⟨fun conn link at_ => ?_, matched.paired, matched.holders⟩
  obtain ⟨holder, holds⟩ : ∃ holder, s.mutexes[conn]? = some holder := by
    refine ⟨_, List.getElem?_eq_getElem (?_ : conn < s.mutexes.length)⟩
    rw [matched.made]
    exact (List.getElem?_eq_some_iff.mp at_).1
  obtain ⟨torn, bytes, part⟩ := intact conn link holder at_ holds
  obtain ⟨data, front, idle⟩ : ∃ data, torn <+: frame data ∧
      (s.mutexes[conn]? = some none → torn ≠ frame data) := by
    cases part with
    | none => exact ⟨[], List.nil_prefix, fun _ => (PeerLinks.frame_ne_nil []).symm⟩
    | @writing w _ writes part =>
      refine ⟨w.data, part ▸ List.prefix_append _ _, fun free => ?_⟩
      rw [holds, writes] at free
      cases free
    | @failed data _ rest ended part cut =>
      refine ⟨data, part ▸ List.prefix_append _ _, fun _ same => cut ?_⟩
      rw [← part] at same
      exact List.append_right_eq_self.mp same.symm
  refine ⟨torn, data, bytes, front, idle, fun cut small script r m returned =>
    readMessage_torn front cut small returned m, ?_⟩
  intro msgs datas later reads sent encoded moves answers
  rw [sent, List.flatMap_append, List.append_assoc] at bytes
  have enough : (datas.flatMap frame).length ≤ reads.length := by
    rw [bytes, List.length_append] at answers
    omega
  obtain ⟨received, rest, read, same⟩ :=
    (messages_frames encoded moves enough).2 (later.flatMap frame ++ torn)
  exact ⟨received, rest, same, bytes ▸ read⟩

def overtaking : List LinkEvent :=
  [.register "b" pingMessage.text, .sendToPeer "b" pongMessage.text,
    .sendToPeer "b" pingMessage.text, .lookUp 0, .lookUp 0, .lock 1, .write 0 2,
    .write 0 ((frame pingMessage.text).length - 2), .finish 0, .lock 0, .write 0 3]

theorem peer_link_intact_overtaking : ∃ (s : PeerLinks) (link : Link) (received : List Message)
    (rest : List Answer), s.links[0]? = some link ∧
    link.sent = [pingMessage.text, pingMessage.text] ∧
    List.Forall₂ twoMessages.Same [pingMessage, pingMessage] received ∧
    readMessages twoMessages 2 (List.replicate 200 (.moved 0)) link.out =
      some ⟨received, [0, 0, 0], rest⟩ := by
  let sent := [pingMessage.text, pingMessage.text]
  let link : Link := ⟨sent.flatMap frame ++ [0, 0, 0], false, sent⟩
  obtain ⟨s, reached, at_⟩ := reach_of_replay PeerLinks.next (fun _ _ => True)
    (.start PeerLinks.new_initial) overtaking (fun s => s.links[0]? = some link)
    (by decide +kernel)
  obtain ⟨carried, -⟩ := @peer_link_intact twoMessages s
    (reach_mono (fun _ _ _ step => step.1) reached)
  obtain ⟨torn, data, bytes, -, -, -, reads⟩ := carried 0 link at_
  obtain ⟨received, rest, same, read⟩ := reads [pingMessage, pingMessage] sent []
    (List.replicate 200 (.moved 0)) (List.append_nil sent).symm
    (.cons fits_ping (.cons fits_ping .nil)) (by decide +kernel) (by decide +kernel)
  obtain rfl := List.append_cancel_left bytes
  exact ⟨s, link, received, rest, at_, rfl, same, read⟩

end Results

end P2PSync
