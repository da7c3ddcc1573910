import Mooncake.Engine.Tcp

/-! One session of the TCP transport: how far its two sides have come, and which bytes are where. -/
namespace Mooncake.Engine.Tcp

open Option List
variable (r : SessionHeader)

def SessionHeader.sender : Side := if r.write then .initiator else .target

def SessionHeader.receiver : Side := r.sender.other

def Sends (put : Nat) : Endpoint → Prop
  | .idle | .writingHeader _ | .readingHeader => put = 0
  | .writing header total sent => header = r ∧ total < r.size ∧ put = if sent then total + chunk r total else total
  | .reading _ _ => False
  | .finished completed => completed = true → put = r.size

def Receives (taken : Nat) : Endpoint → Prop
  | .idle | .writingHeader _ | .readingHeader => taken = 0
  | .reading header total => header = r ∧ total < r.size ∧ taken = total
  | .writing _ _ _ => False
  | .finished completed => completed = true → taken = r.size

structure Flow (r : SessionHeader) (l : Link) (put taken : Nat) : Prop where
  order : taken ≤ put
  bound : put ≤ r.size
  header : ∀ h, l.header = some h → h = r
  sends : Sends r put (l.endpoint r.sender)
  receives : Receives r taken (l.endpoint r.receiver)
  length : (l.stream r.receiver).length = put - taken

/-- What a step does to the bytes of a session: nothing, or one chunk goes into the stream, or one is taken
out of it and stored. -/
inductive Moved (r : SessionHeader) (l : Link) (m : Nat → UInt8) (l' : Link) (m' : Nat → UInt8) (put taken : Nat) :
    Nat → Nat → Prop where
  | quiet (stream : l'.stream r.receiver = l.stream r.receiver) (buffer : l'.buffer = l.buffer) (memory : m' = m) :
    Moved r l m l' m' put taken put taken
  | sent (n : Nat) (room : put + n ≤ r.size) (buffer : l'.buffer = l.buffer) (memory : m' = m)
      (stream : l'.stream r.receiver =
        l.stream r.receiver ++ Extent.read (l.memory m r.sender) (Link.base r r.sender + put) n) :
    Moved r l m l' m' put taken (put + n) taken
  | stored (n : Nat) (there : taken + n ≤ put) (stream : l'.stream r.receiver = (l.stream r.receiver).drop n)
      (sender : l'.memory m' r.sender = l.memory m r.sender)
      (receiver : l'.memory m' r.receiver =
        Extent.write (l.memory m r.receiver) (Link.base r r.receiver + taken) ((l.stream r.receiver).take n)) :
    Moved r l m l' m' put taken put (taken + n)

theorem chunk_le (total : Nat) : chunk r total ≤ r.size - total := Nat.min_le_right _ _

theorem chunk_eq_zero {r : SessionHeader} {total : Nat} : chunk r total = 0 ↔ r.size ≤ total := by
  unfold chunk kDefaultBufferSize
  omega

theorem sends_writeBody {r : SessionHeader} {total : Nat} (inside : total ≤ r.size) :
    Sends r total (writeBody r total) := by
  unfold writeBody
  split
  next ceased => exact fun _ => Nat.le_antisymm inside (chunk_eq_zero.mp ceased)
  next more => exact ⟨rfl, Nat.lt_of_not_le (fun ceased => more (chunk_eq_zero.mpr ceased)), rfl⟩

theorem receives_readBody {r : SessionHeader} {total : Nat} (inside : total ≤ r.size) :
    Receives r total (readBody r total) := by
  unfold readBody
  split
  next ceased => exact fun _ => Nat.le_antisymm inside (chunk_eq_zero.mp ceased)
  next more => exact ⟨rfl, Nat.lt_of_not_le (fun ceased => more (chunk_eq_zero.mpr ceased)), rfl⟩

theorem Side.other_ne (side : Side) : side.other ≠ side := by cases side <;> decide

theorem Side.eq_other {a b : Side} (different : a ≠ b) : a = b.other := by
  cases a <;> cases b <;> first | rfl | exact absurd rfl different

section
variable {r : SessionHeader} {l l' : Link} {m m' : Nat → UInt8} {k n : Nat}

theorem endpoint_enter (l : Link) (side x : Side) (e : Endpoint) :
    (l.enter side e).endpoint x = if x = side then e else l.endpoint x := Function.update_apply _ _ _ _

theorem store_eq (l : Link) (m : Nat → UInt8) (side : Side) (address : Nat) (bytes : List UInt8) :
    (l.store m side address bytes).1.endpoint = l.endpoint ∧ (l.store m side address bytes).1.header = l.header ∧
      (l.store m side address bytes).1.stream = l.stream ∧
      ∀ x, (l.store m side address bytes).1.memory (l.store m side address bytes).2 x =
        if x = side then Extent.write (l.memory m side) address bytes else l.memory m x := by
  cases side <;> exact ⟨rfl, rfl, rfl, fun x => by cases x <;> rfl⟩

variable {side : Side} {header : SessionHeader} {total : Nat}

section
variable (flow : Flow r l k n)
include flow

theorem Flow.enter {e : Endpoint} (sends : side = r.sender → Sends r k e)
    (receives : side = r.receiver → Receives r n e) : Flow r (l.enter side e) k n := by
  refine ⟨flow.order, flow.bound, flow.header, ?_, ?_, flow.length⟩
  · rw [endpoint_enter]
    split
    next same => exact sends same.symm
    next => exact flow.sends
  · rw [endpoint_enter]
    split
    next same => exact receives same.symm
    next => exact flow.receives

theorem Flow.writing {sent : Bool} (writes : l.endpoint side = .writing header total sent) :
    side = r.sender ∧ header = r ∧ total < r.size ∧ k = if sent then total + chunk r total else total := by
  by_cases same : side = r.sender
  · have sends := flow.sends
    rw [← same, writes] at sends
    exact ⟨same, sends⟩
  · have receives := flow.receives
    rw [SessionHeader.receiver, ← Side.eq_other same, writes] at receives
    exact receives.elim

theorem Flow.reading (reads : l.endpoint side = .reading header total) :
    side = r.receiver ∧ header = r ∧ total < r.size ∧ n = total := by
  by_cases same : side = r.sender
  · have sends := flow.sends
    rw [← same, reads] at sends
    exact sends.elim
  · have here := Side.eq_other same
    have receives := flow.receives
    rw [SessionHeader.receiver, ← here, reads] at receives
    exact ⟨here, receives⟩

theorem Flow.put (done : l.put m side = some l') : ∃ k', Flow r l' k' n ∧ Moved r l m l' m k n k' n := by
  unfold Link.put at done
  split at done
  next header total writes =>
    obtain ⟨rfl, rfl, below, at_total⟩ := flow.writing writes
    have at_total : k = total := at_total
    subst at_total
    cases done
    have room : k + chunk header k ≤ header.size := by
      have := chunk_le header k
      omega
    have stream := Function.update_self header.receiver (l.stream header.receiver ++
      Extent.read (l.memory m header.sender) (Link.base header header.sender + k) (chunk header k)) l.stream
    refine ⟨_, ⟨Nat.le_trans flow.order (Nat.le_add_right _ _), room, flow.header, ?_, ?_, ?_⟩, .sent _ room rfl rfl stream⟩
    · rw [endpoint_enter, if_pos rfl]
      exact ⟨rfl, below, rfl⟩
    · rw [endpoint_enter, if_neg (show header.receiver ≠ header.sender from Side.other_ne _)]
      exact flow.receives
    · refine (congrArg List.length stream).trans ?_
      rw [length_append, Extent.length_read, flow.length]
      have := flow.order
      omega
  · cases done

theorem Flow.take (done : l.take m side = some (l', m')) :
    ∃ n', Flow r l' k n' ∧ Moved r l m l' m' k n k n' := by
  unfold Link.take at done
  split at done
  next header total reads =>
    obtain ⟨rfl, rfl, below, rfl⟩ := flow.reading reads
    split at done
    next there =>
      have inside : n + chunk header n ≤ k := by
        rw [flow.length] at there
        have := flow.order
        omega
      obtain ⟨endpoints, headers, streams, memories⟩ := store_eq
        ((l.pull header.receiver (chunk header n)).enter header.receiver (readBody header (n + chunk header n)))
          m header.receiver
        (Link.base header header.receiver + n) ((l.stream header.receiver).take (chunk header n))
      rw [some.inj done] at endpoints headers streams memories
      have stream : l'.stream header.receiver = (l.stream header.receiver).drop (chunk header n) := by
        rw [streams]
        exact Function.update_self _ _ _
      have apart : header.sender ≠ header.receiver := (Side.other_ne _).symm
      refine ⟨n + chunk header n, ⟨inside, flow.bound, fun h found => flow.header h (headers ▸ found), ?_, ?_, ?_⟩,
        .stored _ inside stream ?_ ?_⟩
      · rw [endpoints, endpoint_enter, if_neg apart]
        exact flow.sends
      · rw [endpoints, endpoint_enter, if_pos rfl]
        exact receives_readBody (Nat.le_trans inside flow.bound)
      · rw [stream, length_drop, flow.length]
        omega
      · rw [memories, if_neg apart]
        cases header.sender <;> rfl
      · rw [memories, if_pos rfl]
        cases header.receiver <;> rfl
    · cases done
  · cases done

theorem Flow.withHeader {header : Option SessionHeader} (same : ∀ h, header = some h → h = r) :
    Flow r { l with header := header } k n := ⟨flow.order, flow.bound, same, flow.sends, flow.receives, flow.length⟩

end

def Endpoint.Early : Endpoint → Prop
  | .idle | .writingHeader _ | .readingHeader => True
  | _ => False

theorem Flow.early (flow : Flow r l k n) (side : Side) (early : (l.endpoint side).Early) :
    (side = r.sender → k = 0) ∧ (side = r.receiver → n = 0) := by
  constructor
  · rintro rfl
    have sends := flow.sends
    cases at_side : l.endpoint r.sender <;> rw [at_side] at early sends <;> first | exact sends | exact early.elim
  · rintro rfl
    have receives := flow.receives
    cases at_side : l.endpoint r.receiver <;> rw [at_side] at early receives <;> first | exact receives | exact early.elim

theorem Flow.begin (flow : Flow r l k n) (side : Side) (early : (l.endpoint side).Early) :
    Flow r (l.enter side (if side = r.sender then writeBody r 0 else readBody r 0)) k n := by
  obtain ⟨nothing, none⟩ := flow.early side early
  refine flow.enter (fun same => ?_) (fun same => ?_)
  · rw [if_pos same, nothing same]
    exact sends_writeBody (Nat.zero_le _)
  · rw [if_neg (by rw [same]; exact Side.other_ne _), none same]
    exact receives_readBody (Nat.zero_le _)

theorem initiator_sends (r : SessionHeader) :
    (.initiator = r.sender ↔ r.write = true) ∧ (.target = r.sender ↔ r.write = false) := by
  unfold SessionHeader.sender
  cases r.write <;> decide

theorem Flow.next (flow : Flow r l k n) {action : Action} (done : l.next r m action = some (l', m')) :
    ∃ k' n', Flow r l' k' n' ∧ Moved r l m l' m' k n k' n' := by
  cases action with
  | initiate =>
    simp only [Link.next] at done
    split at done
    next idle =>
      cases done
      obtain ⟨nothing, none⟩ := flow.early .initiator (by rw [idle]; trivial)
      exact ⟨k, n, flow.enter nothing none, .quiet rfl rfl rfl⟩
    · cases done
  | putHeader =>
    simp only [Link.next] at done
    split at done
    next writes =>
      cases done
      obtain ⟨nothing, none⟩ := flow.early .initiator (by rw [writes]; trivial)
      have entered : Flow r (l.enter .initiator (.writingHeader true)) k n := flow.enter nothing none
      exact ⟨k, n, entered.withHeader (fun h same => (some.inj same).symm), .quiet rfl rfl rfl⟩
    · cases done
  | wroteHeader =>
    simp only [Link.next] at done
    split at done
    next writes =>
      cases done
      have begun := flow.begin .initiator (by rw [writes]; trivial)
      simp only [(initiator_sends r).1] at begun
      exact ⟨k, n, begun, .quiet rfl rfl rfl⟩
    · cases done
  | takeHeader =>
    simp only [Link.next] at done
    split at done
    next header reads found =>
      cases done
      cases flow.header header found
      have begun := flow.begin .target (by rw [reads]; trivial)
      have same : (if r.write = true then readBody r 0 else writeBody r 0) =
          if .target = r.sender then writeBody r 0 else readBody r 0 := by
        simp only [(initiator_sends r).2]
        cases r.write <;> rfl
      rw [same]
      exact ⟨k, n, begun.withHeader (fun _ wrong => nomatch wrong), .quiet rfl rfl rfl⟩
    · cases done
  | put side =>
    obtain ⟨l'', put, same⟩ := map_eq_some_iff.mp done
    cases same
    obtain ⟨k', after, moved⟩ := flow.put put
    exact ⟨k', n, after, moved⟩
  | wrote side =>
    simp only [Link.next] at done
    split at done
    next header total writes =>
      cases done
      obtain ⟨rfl, rfl, below, at_total⟩ := flow.writing writes
      have at_total : k = total + chunk header total := at_total
      rw [← at_total]
      refine ⟨k, n, flow.enter (fun _ => sends_writeBody flow.bound) (fun wrong => ?_), .quiet rfl rfl rfl⟩
      exact absurd wrong.symm (Side.other_ne _)
    · cases done
  | take side =>
    obtain ⟨n', after, moved⟩ := flow.take done
    exact ⟨k, n', after, moved⟩
  | fail side =>
    simp only [Link.next] at done
    split at done
    · cases done
    · cases done
    · cases done
      exact ⟨k, n, flow.enter (fun _ wrong => nomatch wrong) (fun _ wrong => nomatch wrong), .quiet rfl rfl rfl⟩

end

/-! ## The bytes -/

section
variable {r : SessionHeader} {l l' : Link} {m m' : Nat → UInt8} {k n k' n' : Nat} {value : List UInt8}

def Carries (r : SessionHeader) (value : List UInt8) (l : Link) (put taken : Nat) : Prop :=
  l.stream r.receiver = (value.take put).drop taken

def Holds (r : SessionHeader) (value : List UInt8) (l : Link) (m : Nat → UInt8) (taken : Nat) : Prop :=
  Extent.read (l.memory m r.receiver) (Link.base r r.receiver) taken = value.take taken

theorem Carries.moved (carries : Carries r value l k n) (order : n ≤ k) (length : value.length = r.size)
    (from_sender : Extent.read (l.memory m r.sender) (Link.base r r.sender) r.size = value)
    (moved : Moved r l m l' m' k n k' n') : Carries r value l' k' n' := by
  cases moved with
  | quiet stream _ _ => exact stream.trans carries
  | sent c room _ _ stream =>
    have bytes : Extent.read (l.memory m r.sender) (Link.base r r.sender + k) c = (value.drop k).take c := by
      rw [← from_sender, Extent.read_inside _ (Nat.le_add_right _ _)
        (by omega : Link.base r r.sender + k + c ≤ Link.base r r.sender + r.size),
        Nat.add_sub_cancel_left]
    have short : n ≤ (value.take k).length := by
      rw [length_take]
      omega
    rw [Carries, stream, bytes, take_add, drop_append_of_le_length short, ← carries]
  | stored c _ stream _ _ =>
    rw [Carries, stream, carries, drop_drop]

theorem Holds.moved (holds : Holds r value l m n) (carries : Carries r value l k n) (flow : Flow r l k n)
    (moved : Moved r l m l' m' k n k' n') : Holds r value l' m' n' := by
  have kept (buffer : l'.buffer = l.buffer) (memory : m' = m) : Holds r value l' m' n := by
    have same : l'.memory m' r.receiver = l.memory m r.receiver := by
      subst memory
      unfold Link.memory
      rw [buffer]
    rw [Holds, same]
    exact holds
  cases moved with
  | quiet _ buffer memory => exact kept buffer memory
  | sent _ _ buffer memory _ => exact kept buffer memory
  | stored c there _ _ receiver =>
    have bytes : (l.stream r.receiver).take c = (value.drop n).take c := by
      rw [carries, drop_take, take_take]
      congr 1
      omega
    have length : ((l.stream r.receiver).take c).length = c := by
      rw [length_take, flow.length]
      omega
    have written := Extent.read_write (l.memory m r.receiver) (Link.base r r.receiver + n) ((l.stream r.receiver).take c)
    rw [length] at written
    rw [Holds, receiver, Extent.read_add, Extent.read_write_before (Nat.le_refl _), written, bytes, take_add]
    exact congrArg (· ++ _) holds

variable (moved : Moved r l m l' m' k n k' n')
include moved

theorem Moved.taken_le : n ≤ n' := by
  cases moved
  · exact Nat.le_refl _
  · exact Nat.le_refl _
  · exact Nat.le_add_right _ _

theorem Moved.sender : l'.memory m' r.sender = l.memory m r.sender := by
  cases moved with
  | quiet _ buffer memory =>
    subst memory
    unfold Link.memory
    rw [buffer]
  | sent _ _ buffer memory _ =>
    subst memory
    unfold Link.memory
    rw [buffer]
  | stored _ _ _ sender _ => exact sender

/-- The memory of the target changes in the range of a `WRITE` only. -/
theorem Moved.read_apart (flow : Flow r l k n) {a length : Nat}
    (apart : r.write = true → Extent.Apart (r.addr, r.size) (a, length)) :
    Extent.read m' a length = Extent.read m a length := by
  cases moved with
  | quiet _ _ memory => rw [memory]
  | sent _ _ _ memory _ => rw [memory]
  | stored c there _ sender receiver =>
    cases write : r.write with
    | false =>
      have same : r.sender = .target := by simp [SessionHeader.sender, write]
      rw [same] at sender
      exact congrArg (Extent.read · a length) sender
    | true =>
      have same : r.receiver = .target := by simp [SessionHeader.receiver, SessionHeader.sender, write, Side.other]
      have size := flow.length
      have bound := flow.bound
      rw [same] at receiver size
      have receiver : m' = Extent.write m (r.addr + n) ((l.stream .target).take c) := receiver
      have away := apart write
      rw [receiver]
      refine Extent.read_write_apart ?_
      simp only [Extent.Apart, length_take] at away ⊢
      omega

end

/-! ## The initiator -/

section
variable {r : SessionHeader} {l l' : Link} {m m' : Nat → UInt8} {k n : Nat} {action : Action}

def Action.side : Action → Side
  | .initiate | .putHeader | .wroteHeader => .initiator
  | .takeHeader => .target
  | .put side | .wrote side | .take side | .fail side => side

theorem endpoint_next (done : l.next r m action = some (l', m')) :
    (∀ completed, l.endpoint action.side ≠ .finished completed) ∧ l'.endpoint action.side ≠ .idle ∧
      l'.endpoint action.side.other = l.endpoint action.side.other := by
  have entered {e : Endpoint} (begun : e ≠ .idle) : (l.enter action.side e).endpoint action.side ≠ .idle ∧
      (l.enter action.side e).endpoint action.side.other = l.endpoint action.side.other := by
    rw [endpoint_enter, if_pos rfl, endpoint_enter, if_neg (Side.other_ne _)]
    exact ⟨begun, rfl⟩
  have body (header : SessionHeader) (total : Nat) : writeBody header total ≠ .idle ∧ readBody header total ≠ .idle := by
    constructor
    · unfold writeBody
      split <;> exact (nomatch ·)
    · unfold readBody
      split <;> exact (nomatch ·)
  have either (header : SessionHeader) (write : Bool) :
      (if write then writeBody header 0 else readBody header 0) ≠ .idle ∧
        (if write then readBody header 0 else writeBody header 0) ≠ .idle := by
    cases write
    · exact (body header 0).symm
    · exact body header 0
  cases action with
  | initiate | putHeader =>
    simp only [Link.next] at done
    split at done <;> cases done
    next here => exact ⟨fun _ ceased => (nomatch here.symm.trans ceased), entered (nomatch ·)⟩
  | wroteHeader =>
    simp only [Link.next] at done
    split at done <;> cases done
    next here => exact ⟨fun _ ceased => (nomatch here.symm.trans ceased), entered (either _ _).1⟩
  | takeHeader =>
    simp only [Link.next] at done
    split at done <;> cases done
    next here _ => exact ⟨fun _ ceased => (nomatch here.symm.trans ceased), entered (either _ _).2⟩
  | put side =>
    obtain ⟨l'', put, same⟩ := map_eq_some_iff.mp done
    cases same
    simp only [Link.put] at put
    split at put <;> cases put
    next here => exact ⟨fun _ ceased => (nomatch here.symm.trans ceased), entered (nomatch ·)⟩
  | wrote side =>
    simp only [Link.next] at done
    split at done <;> cases done
    next here => exact ⟨fun _ ceased => (nomatch here.symm.trans ceased), entered (body _ _).1⟩
  | take side =>
    simp only [Link.next, Link.take] at done
    split at done
    next header total here =>
      split at done
      · refine ⟨fun _ ceased => (nomatch here.symm.trans ceased), ?_⟩
        have endpoints := (store_eq ((l.pull side (chunk header total)).enter side
          (readBody header (total + chunk header total)))
          m side (Link.base header side + total) ((l.stream side).take (chunk header total))).1
        rw [some.inj done] at endpoints
        rw [endpoints]
        exact entered (body _ _).2
      · cases done
    · cases done
  | fail side =>
    simp only [Link.next] at done
    split at done
    · cases done
    · cases done
    next _ running =>
      cases done
      exact ⟨fun _ ceased => running _ ceased, entered (nomatch ·)⟩

theorem finished_next (done : l.next r m action = some (l', m')) {side : Side} {completed : Bool}
    (ceased : l.endpoint side = .finished completed) : l'.endpoint side = .finished completed := by
  obtain ⟨running, -, other⟩ := endpoint_next done
  by_cases same : side = action.side
  · exact absurd (same ▸ ceased) (running completed)
  · rw [Side.eq_other same] at ceased ⊢
    exact other.trans ceased

structure Fresh (l : Link) : Prop where
  header : l.header = none
  target : l.endpoint .target = .readingHeader ∨ l.endpoint .target = .finished false
  stream : ∀ side, l.stream side = []

theorem Flow.nothing (flow : Flow r l k n) (read : r.write = false) (idle : l.endpoint .initiator = .idle)
    (fresh : Fresh l) (value : List UInt8) : Carries r value l k n ∧ Holds r value l m n := by
  have receives : Side.initiator = r.receiver := by
    rw [SessionHeader.receiver, ← (initiator_sends r).2.mpr read]
    rfl
  have none : n = 0 := (flow.early .initiator (by rw [idle]; trivial)).2 receives
  have length := flow.length
  rw [fresh.stream, length_nil] at length
  have zero : k = 0 := by omega
  subst none zero
  exact ⟨fresh.stream _, rfl⟩

theorem Fresh.next (fresh : l.endpoint .initiator = .idle → Fresh l) (done : l.next r m action = some (l', m'))
    (idle : l'.endpoint .initiator = .idle) : Fresh l' := by
  obtain ⟨-, begun, other⟩ := endpoint_next done
  have at_target : action.side = .target := by
    cases own : action.side with
    | initiator => exact absurd idle (own ▸ begun)
    | target => rfl
  rw [at_target] at other
  obtain ⟨header, target, stream⟩ := fresh (other.symm.trans idle)
  cases action with
  | initiate | putHeader | wroteHeader => cases at_target
  | takeHeader => simp [Link.next, header] at done
  | put side =>
    cases at_target
    rcases target with here | here <;> simp [Link.next, Link.put, here] at done
  | wrote side =>
    cases at_target
    rcases target with here | here <;> simp [Link.next, here] at done
  | take side =>
    cases at_target
    rcases target with here | here <;> simp [Link.next, Link.take, here] at done
  | fail side =>
    cases at_target
    simp only [Link.next] at done
    split at done <;> cases done
    exact ⟨header, .inr ((endpoint_enter _ _ _ _).trans (if_pos rfl)), stream⟩

def Link.finishing (l : Link) : Bool :=
  match l.endpoint .initiator with
  | .writing header total true => header.size ≤ total + chunk header total
  | _ => false

theorem Flow.finishing (flow : Flow r l k n) (finishing : l.finishing = true) : r.size ≤ k := by
  unfold Link.finishing at finishing
  split at finishing
  next header total writes =>
    obtain ⟨-, rfl, -, put⟩ := flow.writing writes
    exact Nat.le_trans (of_decide_eq_true finishing) (Nat.le_of_eq put.symm)
  · cases finishing

theorem Flow.finishes (flow : Flow r l k n) (write : r.write = true) (some_bytes : 0 < r.size)
    (done : l.next r m action = some (l', m')) (running : l.endpoint .initiator ≠ .finished true)
    (ceased : l'.endpoint .initiator = .finished true) : action = .wrote .initiator ∧ l.finishing = true := by
  have initiates : r.sender = .initiator := ((initiator_sends r).1.mpr write).symm
  have own : action.side = .initiator := by
    obtain ⟨-, -, other⟩ := endpoint_next done
    cases same : action.side with
    | initiator => rfl
    | target =>
      rw [same] at other
      exact absurd (other.symm.trans ceased) running
  have entered (e : Endpoint) : (l.enter .initiator e).endpoint .initiator = e := by rw [endpoint_enter, if_pos rfl]
  cases action with
  | initiate | putHeader =>
    simp only [Link.next] at done
    split at done <;> cases done
    exact nomatch (entered _).symm.trans ceased
  | wroteHeader =>
    simp only [Link.next, if_pos write] at done
    split at done <;> cases done
    have ceased := (entered _).symm.trans ceased
    unfold writeBody at ceased
    split at ceased
    next none =>
      have := chunk_eq_zero.mp none
      omega
    · cases ceased
  | takeHeader => cases own
  | put side =>
    cases own
    obtain ⟨l'', put, same⟩ := map_eq_some_iff.mp done
    cases same
    simp only [Link.put] at put
    split at put <;> cases put
    exact nomatch (entered _).symm.trans ceased
  | wrote side =>
    cases own
    refine ⟨rfl, ?_⟩
    simp only [Link.next] at done
    split at done <;> cases done
    next here =>
      have ceased := (entered _).symm.trans ceased
      unfold writeBody at ceased
      split at ceased
      next none =>
        unfold Link.finishing
        rw [here]
        exact decide_eq_true (chunk_eq_zero.mp none)
      · cases ceased
  | take side =>
    cases own
    simp only [Link.next, Link.take] at done
    split at done
    next here =>
      have receives : Side.initiator = r.receiver := (flow.reading here).1
      rw [SessionHeader.receiver, initiates] at receives
      cases receives
    · cases done
  | fail side =>
    cases own
    simp only [Link.next] at done
    split at done <;> cases done
    exact nomatch (entered _).symm.trans ceased

end

end Mooncake.Engine.Tcp
