import Mathlib.Data.List.GetD
import ShipNet.PacketHandler

/-! The table of callbacks as `SetPointerCallback` fills it. Every call resizes the
outer table to eight entries behind the handler that it is for, whether that makes
it longer or shorter, so what survives depends on the order of the calls. -/
namespace ShipNet.PacketHandler
open Fallible OrdinalVector GrowingTable

variable {γ : Type}

/-- A call of `SetPointerCallback` with a callback that is not empty. -/
structure SetCallback (γ : Type) where
  handlerOrdinal : UInt32
  packetOrdinal : UInt32
  callback : Callback γ

namespace SetCallback

def run (callbacks : List (List (Option (Callback γ)))) (call : SetCallback γ) :
    Exec (List (List (Option (Callback γ)))) :=
  setPointerCallback callbacks call.handlerOrdinal call.packetOrdinal (some call.callback)

/-- The entry of the table that the call is for. -/
def entry (call : SetCallback γ) : UInt32 × UInt32 := (call.handlerOrdinal, call.packetOrdinal)

end SetCallback

/-- These calls, from the empty table on. -/
def setCallbacks (calls : List (SetCallback γ)) : Exec (List (List (Option (Callback γ)))) :=
  calls.foldlM SetCallback.run []

/-- The callback that these calls give an entry last, or that it had before. -/
def lastGiven (entry : UInt32 × UInt32) (before : Option (Callback γ)) : List (SetCallback γ) → Option (Callback γ)
  | [] => before
  | call :: later => lastGiven entry (if call.entry = entry then some call.callback else before) later

/-- `Handle` when this is the callback of the packet. -/
def invoke (callback : Option (Callback γ)) (handler : PacketHandler) (user : γ) (packet : PacketHolder)
    (buffer : ByteBufferImpl) : Exec (Errorable Bool × γ × ByteBufferImpl × List Invocation) :=
  match callback with
  | some callback => do
    let (handled, user, after) ← callback handler user packet buffer
    pure (handled, user, after, [⟨handler, buffer.content, after.content⟩])
  | none => pure (successErrorable false, user, buffer, [])

/-- Every call finds its entry, and every packet gets the callback given last. -/
def NeverLost (calls : List (SetCallback γ)) : Prop :=
  ∃ callbacks, setCallbacks calls = .ok callbacks ∧
    ∀ handler user packet buffer, handle callbacks handler user packet buffer =
      invoke (lastGiven (handler.ordinal, packet.ordinal) none calls) handler user packet buffer

/-- No handler is further than the table reaches, starting at this length. -/
def Reaches (length : Nat) : List (SetCallback γ) → Prop
  | [] => True
  | call :: later => call.handlerOrdinal.toNat ≤ length ∧ Reaches (call.handlerOrdinal.toNat + slack) later

/-- Whether the table still holds this entry after these calls, or one of them gave
it again. -/
def Stays (entry : UInt32 × UInt32) (later : List (SetCallback γ)) : Prop :=
  (∀ call ∈ later, call.entry ≠ entry) → ∀ call ∈ later, entry.1.toNat < call.handlerOrdinal.toNat + slack

/-- After the last call for an entry no later one cuts the table off before it. -/
def Kept : List (SetCallback γ) → Prop
  | [] => True
  | call :: later => Stays call.entry later ∧ Kept later

/-! ### One call -/

theorem getD_set {α : Type} [Inhabited α] {table : List α} {index : Nat} (inside : index < table.length) (value : α)
    (position : Nat) :
    (table.set index value).getD position default = if position = index then value else table.getD position default := by
  by_cases here : position = index
  · subst here
    rw [if_pos rfl, List.getD_eq_getElem?_getD, List.getElem?_set_self inside, Option.getD_some]
  · rw [if_neg here, List.getD_eq_getElem?_getD, List.getElem?_set_ne (Ne.symm here), List.getD_eq_getElem?_getD]

/-- The callback at an entry of the table. -/
def callbackAt (callbacks : List (List (Option (Callback γ)))) (entry : UInt32 × UInt32) : Option (Callback γ) :=
  (callbacks.getD entry.1.toNat default).getD entry.2.toNat default

theorem lookup_eq (callbacks : List (List (Option (Callback γ)))) (handler : PacketHandler) (ordinal : UInt32) :
    lookup callbacks handler ordinal = callbackAt callbacks (handler.ordinal, ordinal) := by
  unfold lookup callbackAt
  split
  · rename_i outside
    rw [List.getD_eq_default _ _ outside]
    rfl
  · simp only
    split
    · rename_i outside
      exact (List.getD_eq_default _ _ outside).symm
    · rfl

theorem handle_eq (callbacks : List (List (Option (Callback γ)))) (handler : PacketHandler) (user : γ)
    (packet : PacketHolder) (buffer : ByteBufferImpl) :
    handle callbacks handler user packet buffer =
      invoke (callbackAt callbacks (handler.ordinal, packet.ordinal)) handler user packet buffer := by
  rw [handle, lookup_eq]
  rfl

variable {callbacks : List (List (Option (Callback γ)))} {call : SetCallback γ} {calls : List (SetCallback γ)}
  {entry : UInt32 × UInt32}

/-- The ordinals of a call leave room for eight more. -/
def SetCallback.InRange (call : SetCallback γ) : Prop :=
  call.handlerOrdinal.toNat < 2 ^ 32 - 8 ∧ call.packetOrdinal.toNat < 2 ^ 32 - 8

theorem run_out_of_bounds (far : callbacks.length < call.handlerOrdinal.toNat) :
    call.run callbacks = .error .outOfBounds := by
  have absent : callbacks[call.handlerOrdinal.toNat]? = none := List.getElem?_eq_none (Nat.le_of_lt far)
  simp only [SetCallback.run, setPointerCallback, if_neg (Nat.not_le.mpr far), absent, throw_is_error]

/-- What a call leaves: its own entry, and the others as far as the table reaches. -/
theorem run_returns (inRange : call.InRange) (near : call.handlerOrdinal.toNat ≤ callbacks.length) :
    Returns (call.run callbacks) fun after =>
      after.length = call.handlerOrdinal.toNat + slack ∧
      ∀ entry, callbackAt after entry =
        if call.entry = entry then some call.callback
        else if entry.1.toNat < call.handlerOrdinal.toNat + slack then callbackAt callbacks entry
        else none := by
  have positive := slack_pos
  have size := toNat_add_eight inRange.1
  generalize resized : resize callbacks (call.handlerOrdinal + 8).toNat = table
  have length : table.length = call.handlerOrdinal.toNat + slack := by
    rw [← resized, length_resize, size]
  have inside : call.handlerOrdinal.toNat < table.length := by omega
  have old : ∀ position, table.getD position default =
      if position < call.handlerOrdinal.toNat + slack then callbacks.getD position default else default := by
    intro position
    rw [← resized, getD_resize, size]
  have present : table[call.handlerOrdinal.toNat]? = some table[call.handlerOrdinal.toNat] :=
    List.getElem?_eq_getElem inside
  have row : table[call.handlerOrdinal.toNat] = callbacks.getD call.handlerOrdinal.toNat default := by
    have here := old call.handlerOrdinal.toNat
    rw [if_pos (by omega), List.getD_eq_getElem?_getD, present] at here
    exact here
  simp only [SetCallback.run, setPointerCallback, if_pos (show callbacks.length ≥ call.handlerOrdinal.toNat from near),
    resized, present, resizeVectorAndSet_eq inRange.2, ok_bind, pure_is_ok, returns_ok]
  refine ⟨by rw [List.length_set, length], ?_⟩
  intro entry
  rw [callbackAt, getD_set inside]
  by_cases sameRow : entry.1 = call.handlerOrdinal
  · -- the row of the call grows as any such vector
    rw [if_pos (congrArg UInt32.toNat sameRow), getD_place positive, row, ← sameRow]
    by_cases samePacket : entry.2 = call.packetOrdinal
    · rw [if_pos (congrArg UInt32.toNat samePacket), if_pos (Prod.ext sameRow.symm samePacket.symm)]
    · rw [if_neg fun same => samePacket (UInt32.toNat_inj.mp same),
        if_neg fun same => samePacket (congrArg Prod.snd same).symm, if_pos (by omega)]
      rfl
  · rw [if_neg fun same => sameRow (UInt32.toNat_inj.mp same),
      if_neg fun same => sameRow (congrArg Prod.fst same).symm, old]
    split
    · rfl
    · rfl

/-! ### All calls -/

/-- What these calls leave of an entry that had this callback before. -/
def surviving (entry : UInt32 × UInt32) (before : Option (Callback γ)) : List (SetCallback γ) → Option (Callback γ)
  | [] => before
  | call :: later =>
    surviving entry
      (if call.entry = entry then some call.callback
        else if entry.1.toNat < call.handlerOrdinal.toNat + slack then before
        else none) later

theorem calls_return (inRange : ∀ call ∈ calls, call.InRange) (reaches : Reaches callbacks.length calls) :
    Returns (calls.foldlM SetCallback.run callbacks) fun after =>
      ∀ entry, callbackAt after entry = surviving entry (callbackAt callbacks entry) calls := by
  induction calls generalizing callbacks with
  | nil => exact (returns_ok _ _).mpr fun entry => rfl
  | cons call later ih =>
    obtain ⟨first, others⟩ := List.forall_mem_cons.mp inRange
    rw [List.foldlM_cons]
    apply (run_returns first reaches.1).bind
    rintro middle ⟨length, contents⟩
    refine (ih others (length ▸ reaches.2)).mono ?_
    intro after left entry
    rw [left, contents]
    rfl

theorem calls_out_of_bounds (inRange : ∀ call ∈ calls, call.InRange) (far : ¬ Reaches callbacks.length calls) :
    calls.foldlM SetCallback.run callbacks = .error .outOfBounds := by
  induction calls generalizing callbacks with
  | nil => exact absurd trivial far
  | cons call later ih =>
    obtain ⟨first, others⟩ := List.forall_mem_cons.mp inRange
    rw [List.foldlM_cons]
    by_cases near : call.handlerOrdinal.toNat ≤ callbacks.length
    · obtain ⟨middle, ran, length, -⟩ := run_returns first near
      rw [ran, ok_bind]
      apply ih others
      rw [length]
      exact fun further => far ⟨near, further⟩
    · rw [run_out_of_bounds (Nat.lt_of_not_le near), error_bind]

/-! ### What survives -/

theorem lastGiven_absent {before : Option (Callback γ)} (absent : ∀ call ∈ calls, call.entry ≠ entry) :
    lastGiven entry before calls = before := by
  induction calls with
  | nil => rfl
  | cons call later ih =>
    obtain ⟨first, others⟩ := List.forall_mem_cons.mp absent
    rw [lastGiven, if_neg first]
    exact ih others

theorem lastGiven_present {call : SetCallback γ} (member : call ∈ calls) (same : call.entry = entry)
    (before other : Option (Callback γ)) : lastGiven entry before calls = lastGiven entry other calls := by
  induction calls generalizing before other with
  | nil => cases member
  | cons first later ih =>
    rw [lastGiven, lastGiven]
    rcases List.mem_cons.mp member with rfl | further
    · rw [if_pos same, if_pos same]
    · exact ih further _ _

theorem surviving_absent (absent : ∀ call ∈ calls, call.entry ≠ entry) : surviving entry none calls = none := by
  induction calls with
  | nil => rfl
  | cons call later ih =>
    obtain ⟨first, others⟩ := List.forall_mem_cons.mp absent
    rw [surviving, if_neg first, ite_self]
    exact ih others

/-- The entry has its last callback, or none at all. -/
theorem surviving_or_none (before : Option (Callback γ)) :
    surviving entry before calls = lastGiven entry before calls ∨ surviving entry before calls = none := by
  induction calls generalizing before with
  | nil => exact .inl rfl
  | cons call later ih =>
    rw [surviving, lastGiven]
    by_cases same : call.entry = entry
    · rw [if_pos same, if_pos same]
      exact ih _
    · rw [if_neg same, if_neg same]
      split
      · exact ih before
      · by_cases again : ∃ other ∈ later, other.entry = entry
        · obtain ⟨other, member, given⟩ := again
          rw [lastGiven_present member given before none]
          exact ih none
        · have absent : ∀ other ∈ later, other.entry ≠ entry := fun other member given =>
            again ⟨other, member, given⟩
          exact .inr (surviving_absent absent)

/-- `Kept`, of one entry. -/
def KeptAt (entry : UInt32 × UInt32) : List (SetCallback γ) → Prop
  | [] => True
  | call :: later => (call.entry = entry → Stays entry later) ∧ KeptAt entry later

theorem kept_iff : Kept calls ↔ ∀ entry, KeptAt entry calls := by
  induction calls with
  | nil => exact ⟨fun _ _ => trivial, fun _ => trivial⟩
  | cons call later ih =>
    constructor
    · rintro ⟨stays, kept⟩ entry
      exact ⟨fun same => same ▸ stays, ih.mp kept entry⟩
    · intro everywhere
      exact ⟨(everywhere call.entry).1 rfl, ih.mpr fun entry => (everywhere entry).2⟩

/-- What a call for another entry does to an entry that is present. -/
theorem stays_cons (other : call.entry ≠ entry) :
    Stays entry (call :: calls) ↔
      ((∀ later ∈ calls, later.entry ≠ entry) → entry.1.toNat < call.handlerOrdinal.toNat + slack) ∧
        Stays entry calls := by
  constructor
  · intro stays
    refine ⟨fun absent => ?_, fun absent => ?_⟩
    · exact stays (List.forall_mem_cons.mpr ⟨other, absent⟩) call List.mem_cons_self
    · exact (List.forall_mem_cons.mp (stays (List.forall_mem_cons.mpr ⟨other, absent⟩))).2
  · rintro ⟨near, stays⟩ absent
    obtain ⟨-, others⟩ := List.forall_mem_cons.mp absent
    exact List.forall_mem_cons.mpr ⟨near others, stays others⟩

theorem surviving_eq_iff (before : Option (Callback γ)) :
    surviving entry before calls = lastGiven entry before calls ↔
      (before ≠ none → Stays entry calls) ∧ KeptAt entry calls := by
  induction calls generalizing before with
  | nil => exact ⟨fun _ => ⟨fun _ _ _ member => (nomatch member), trivial⟩, fun _ => rfl⟩
  | cons call later ih =>
    rw [surviving, lastGiven, KeptAt]
    by_cases same : call.entry = entry
    · have covered : Stays entry (call :: later) := fun absent => absurd same (absent call List.mem_cons_self)
      rw [if_pos same, if_pos same, ih]
      simp [same, covered]
    · have other : call.entry = entry → Stays entry later := fun given => absurd given same
      rw [if_neg same, if_neg same, stays_cons same]
      by_cases near : entry.1.toNat < call.handlerOrdinal.toNat + slack
      · rw [if_pos near, ih]
        simp [near, same]
      · rw [if_neg near]
        by_cases again : ∃ later' ∈ later, later'.entry = entry
        · obtain ⟨next, member, given⟩ := again
          have covered : Stays entry later := fun absent => absurd given (absent next member)
          have present : ¬ ∀ later' ∈ later, later'.entry ≠ entry := fun absent => absent next member given
          rw [lastGiven_present member given before none, ih]
          simp [same, covered, present]
        · have absent : ∀ later' ∈ later, later'.entry ≠ entry := fun next member given =>
            again ⟨next, member, given⟩
          have none_left := (ih none).symm.trans (by rw [surviving_absent absent, lastGiven_absent absent])
          rw [surviving_absent absent, lastGiven_absent absent]
          cases before with
          | none => simpa [same] using none_left
          | some callback =>
            constructor
            · rintro ⟨⟩
            · rintro ⟨stays, -⟩
              exact absurd ((stays (Option.some_ne_none callback)).1 absent) near

/-! ### The handlers -/

theorem invoke_some_ne_none (callback : Callback γ) (handler : PacketHandler) (user : γ) (packet : PacketHolder)
    (buffer : ByteBufferImpl) :
    invoke none handler user packet buffer ≠ invoke (some callback) handler user packet buffer := by
  simp only [invoke, pure_is_ok]
  cases ran : callback handler user packet buffer with
  | error fault => simp
  | ok answer => simp

/-- No registration is lost exactly if no handler is past the end of the table when
its turn comes, and nothing cuts the table off before an entry for good. -/
theorem callbacks_never_lost_iff [Inhabited γ] (calls : List (SetCallback γ))
    (inRange : ∀ call ∈ calls, call.InRange) : NeverLost calls ↔ Reaches 0 calls ∧ Kept calls := by
  by_cases reaches : Reaches 0 calls
  · obtain ⟨callbacks, ran, found⟩ : Returns (setCallbacks calls) fun after =>
        ∀ entry, callbackAt after entry = surviving entry none calls := calls_return inRange reaches
    have kept : Kept calls ↔ ∀ entry, surviving entry none calls = lastGiven entry none calls := by
      simp [kept_iff, surviving_eq_iff]
    rw [kept]
    constructor
    · rintro ⟨_, again, handled⟩
      obtain rfl := Except.ok.inj (ran.symm.trans again)
      refine ⟨reaches, ?_⟩
      intro entry
      have either : surviving entry none calls = lastGiven entry none calls ∨ surviving entry none calls = none :=
        surviving_or_none none
      rcases either with same | lost
      · exact same
      · have answer := handled ⟨entry.1⟩ default { (default : PacketHolder) with ordinal := entry.2 }
          (.new (fun _ => default) 1)
        rw [handle_eq, found, lost] at answer
        cases given : lastGiven entry none calls with
        | none => exact lost
        | some callback =>
          rw [given] at answer
          exact absurd answer (invoke_some_ne_none callback _ _ _ _)
    · rintro ⟨-, same⟩
      refine ⟨callbacks, ran, ?_⟩
      intro handler user packet buffer
      rw [handle_eq, found, same]
  · have stopped : setCallbacks calls = .error .outOfBounds := calls_out_of_bounds inRange reaches
    constructor
    · rintro ⟨callbacks, ran, -⟩
      cases stopped.symm.trans ran
    · rintro ⟨within, -⟩
      exact absurd within reaches

/-- A callback that takes every packet as handled. -/
def accept : Callback Unit := fun _ user _ buffer => .ok (successErrorable true, user, buffer)

/-- Two handlers in turns, of which the second is past the first eight. -/
theorem alternating_handlers_never_lost :
    NeverLost [⟨0, 3, accept⟩, ⟨7, 20, accept⟩, ⟨0, 1, accept⟩] := by
  refine (callbacks_never_lost_iff [⟨0, 3, accept⟩, ⟨7, 20, accept⟩, ⟨0, 1, accept⟩] ?_).mpr ⟨?_, ?_⟩
  · simp [SetCallback.InRange]
  · simp [Reaches, slack]
  · simp [Kept, Stays, SetCallback.entry, slack]

/-- The third call cuts the table off after handler 7, and with it the callback of
handler 8. -/
theorem callback_lost : ¬ NeverLost [⟨0, 0, accept⟩, ⟨8, 0, accept⟩, ⟨0, 1, accept⟩] := by
  rintro ⟨callbacks, ran, handled⟩
  cases ran
  have answer := handled ⟨8⟩ () default (.new (fun _ => default) 1)
  cases answer

/-! ### The other lookup -/

/-- `Handle` of a packet with this ordinal calls a callback. -/
def Invokes (callbacks : List (List (Option (Callback γ)))) (handler : PacketHandler) (ordinal : UInt32) : Prop :=
  ∃ callback, ∀ user packet buffer, packet.ordinal = ordinal →
    handle callbacks handler user packet buffer = invoke (some callback) handler user packet buffer

/-- `HasCallback` stays within the table, and says what `Handle` does. -/
def Foretells (callbacks : List (List (Option (Callback γ)))) (handler : PacketHandler) (ordinal : UInt32) : Prop :=
  Returns (hasCallback callbacks handler ordinal) fun found => found = true ↔ Invokes callbacks handler ordinal

theorem invokes_iff [Inhabited γ] (callbacks : List (List (Option (Callback γ)))) (handler : PacketHandler)
    (ordinal : UInt32) :
    Invokes callbacks handler ordinal ↔ callbackAt callbacks (handler.ordinal, ordinal) ≠ none := by
  constructor
  · rintro ⟨callback, invoked⟩ absent
    have answer := invoked default { (default : PacketHolder) with ordinal := ordinal } (.new (fun _ => default) 1) rfl
    rw [handle_eq, absent] at answer
    exact invoke_some_ne_none callback _ _ _ _ answer
  · intro present
    obtain ⟨callback, found⟩ := Option.ne_none_iff_exists'.mp present
    refine ⟨callback, ?_⟩
    rintro user packet buffer rfl
    rw [handle_eq, found]

/-- Within the table the answer is always no. -/
theorem has_callback_within (callbacks : List (List (Option (Callback γ)))) {handler : PacketHandler}
    (ordinal : UInt32) (near : handler.ordinal.toNat ≤ callbacks.length) :
    hasCallback callbacks handler ordinal = .ok false := by
  rw [hasCallback, if_pos near, pure_is_ok]

/-- Only past its end is the table read. -/
theorem has_callback_beyond (callbacks : List (List (Option (Callback γ)))) {handler : PacketHandler}
    (ordinal : UInt32) (far : callbacks.length < handler.ordinal.toNat) :
    hasCallback callbacks handler ordinal = .error .outOfBounds := by
  have absent : callbacks[handler.ordinal.toNat]? = none := List.getElem?_eq_none (Nat.le_of_lt far)
  simp only [hasCallback, if_neg (Nat.not_le.mpr far), absent, throw_is_error]

/-- `HasCallback` is right where the table has no callback and the handler is not
past its end, and nowhere else. -/
theorem has_callback_foretells_iff [Inhabited γ] (callbacks : List (List (Option (Callback γ))))
    (handler : PacketHandler) (ordinal : UInt32) :
    Foretells callbacks handler ordinal ↔
      handler.ordinal.toNat ≤ callbacks.length ∧ callbackAt callbacks (handler.ordinal, ordinal) = none := by
  rw [Foretells, invokes_iff]
  by_cases near : handler.ordinal.toNat ≤ callbacks.length
  · rw [has_callback_within callbacks ordinal near, returns_ok]
    constructor
    · intro agrees
      refine ⟨near, ?_⟩
      cases found : callbackAt callbacks (handler.ordinal, ordinal) with
      | none => rfl
      | some callback =>
        have wrong := agrees.mpr (found ▸ Option.some_ne_none callback)
        cases wrong
    · rintro ⟨-, absent⟩
      exact ⟨nofun, fun present => absurd absent present⟩
  · rw [has_callback_beyond callbacks ordinal (Nat.lt_of_not_le near)]
    constructor
    · intro returned
      exact absurd returned (returns_error _ _)
    · rintro ⟨within, -⟩
      exact absurd within near

/-- The callback of handler 0 is found by `Handle` and denied by `HasCallback`. Handler 9
has none, and its entry is read from outside the table of eight. -/
theorem callback_denied :
    Returns (setCallbacks [⟨0, 3, accept⟩]) fun callbacks =>
      ¬ Foretells callbacks ⟨0⟩ 3 ∧ ¬ Foretells callbacks ⟨9⟩ 0 := by
  refine ⟨_, rfl, ?_, ?_⟩
  · rintro ⟨_, ⟨⟩, agrees⟩
    cases agrees.mpr ((invokes_iff _ _ _).mpr nofun)
  · rintro ⟨_, impossible, -⟩
    cases impossible

end ShipNet.PacketHandler
