import Mathlib.Data.List.Basic
import ShipNet.Base128

/-! A stream of frames, each a length in base 128 and as many bytes, read by a
reader that is fed piece by piece and does not put back a length that it could
not read to its end. The frames it delivers are the frames of the stream exactly
if no piece ends inside the length of a frame with a body. -/
namespace ShipNet.Framing
open Base128

/-- A length, in any form, and the bytes it announces. -/
structure Frame where
  header : List UInt8
  body : List UInt8
  terminated : Terminated header
  announces : value header = body.length

def Frame.bytes (frame : Frame) : List UInt8 := frame.header ++ frame.body

def stream (frames : List Frame) : List UInt8 := frames.flatMap Frame.bytes

/-- What a reader keeps between two pieces: the length it has read, or zero, and
the bytes after it. -/
structure Held where
  pending : Nat
  bytes : List UInt8

section Reader
variable (limit : Nat) (accept : Nat → Option Nat)

/-- The bodies that a reader delivers from the bytes it has, and what it keeps.
A length of more than `limit` + 1 bytes, or one that is not accepted, is skipped. -/
def parse (pending : Nat) (bytes : List UInt8) : List (List UInt8) × Held :=
  if pending ≠ 0 then
    if pending ≤ bytes.length then
      (bytes.take pending :: (parse 0 (bytes.drop pending)).1, (parse 0 (bytes.drop pending)).2)
    else ([], ⟨pending, bytes⟩)
  else match _found : decode (limit + 1) bytes with
    | .incomplete => ([], ⟨0, []⟩)
    | .overlong _ rest => parse 0 rest
    | .complete number rest =>
      match accept number with
      | none => parse 0 rest
      | some length =>
        if length ≤ rest.length then
          (rest.take length :: (parse 0 (rest.drop length)).1, (parse 0 (rest.drop length)).2)
        else ([], ⟨length, rest⟩)
termination_by bytes.length
decreasing_by
  all_goals
    first
      | (rw [List.length_drop]; omega)
      | (have shorter := decode_rest_lt_of_ne (Nat.succ_pos limit) _found (by simp)
         simp only [Outcome.rest, List.length_drop] at *
         omega)

/-- The pieces one after another. -/
def feed (held : Held) : List (List UInt8) → List (List UInt8)
  | [] => []
  | piece :: later =>
    (parse limit accept held.pending (held.bytes ++ piece)).1 ++
      feed (parse limit accept held.pending (held.bytes ++ piece)).2 later

variable {limit accept} {pending number length : Nat} {bytes body rest : List UInt8}

theorem parse_short (announced : pending ≠ 0) (short : bytes.length < pending) :
    parse limit accept pending bytes = ([], ⟨pending, bytes⟩) := by
  rw [parse, if_pos announced, if_neg (Nat.not_le.mpr short)]

theorem parse_pending (announced : pending ≠ 0) (enough : pending ≤ bytes.length) :
    parse limit accept pending bytes =
      (bytes.take pending :: (parse limit accept 0 (bytes.drop pending)).1,
        (parse limit accept 0 (bytes.drop pending)).2) := by
  rw [parse, if_pos announced, if_pos enough]

theorem parse_incomplete (cut : decode (limit + 1) bytes = .incomplete) :
    parse limit accept 0 bytes = ([], ⟨0, []⟩) := by
  rw [parse, if_neg (by simp)]
  split
  · rfl
  · simp_all
  · simp_all

theorem parse_overlong (found : decode (limit + 1) bytes = .overlong number rest) :
    parse limit accept 0 bytes = parse limit accept 0 rest := by
  rw [parse, if_neg (by simp)]
  split <;> simp_all

theorem parse_rejected (found : decode (limit + 1) bytes = .complete number rest)
    (rejected : accept number = none) : parse limit accept 0 bytes = parse limit accept 0 rest := by
  rw [parse, if_neg (by simp)]
  split <;> simp_all

theorem parse_announced_short (found : decode (limit + 1) bytes = .complete number rest)
    (accepted : accept number = some length) (short : rest.length < length) :
    parse limit accept 0 bytes = ([], ⟨length, rest⟩) := by
  have notYet : ¬ length ≤ rest.length := Nat.not_le.mpr short
  rw [parse, if_neg (by simp)]
  split <;> simp_all

theorem parse_announced (found : decode (limit + 1) bytes = .complete number rest)
    (accepted : accept number = some length) (enough : length ≤ rest.length) :
    parse limit accept 0 bytes =
      (rest.take length :: (parse limit accept 0 (rest.drop length)).1,
        (parse limit accept 0 (rest.drop length)).2) := by
  rw [parse, if_neg (by simp)]
  split <;> simp_all

/-! ### Whole frames -/

/-- A frame whose length the reader takes as it stands. -/
def Frame.Fits (limit : Nat) (accept : Nat → Option Nat) (frame : Frame) : Prop :=
  frame.header.length ≤ limit + 1 ∧ accept frame.body.length = some frame.body.length

theorem decode_header {frame : Frame} (fits : frame.Fits limit accept) (rest : List UInt8) :
    decode (limit + 1) (frame.header ++ rest) = .complete frame.body.length rest := by
  rw [decode_terminated frame.terminated fits.1, frame.announces]

theorem parse_stream {frames : List Frame} (fits : ∀ frame ∈ frames, frame.Fits limit accept)
    (rest : List UInt8) :
    parse limit accept 0 (stream frames ++ rest) =
      (frames.map Frame.body ++ (parse limit accept 0 rest).1, (parse limit accept 0 rest).2) := by
  induction frames with
  | nil => rfl
  | cons frame later ih =>
    have first := fits frame List.mem_cons_self
    have others := ih fun frame member => fits frame (List.mem_cons_of_mem _ member)
    have split : stream (frame :: later) ++ rest = frame.header ++ (frame.body ++ (stream later ++ rest)) := by
      simp [stream, Frame.bytes]
    rw [split, parse_announced (decode_header first _) first.2 (by simp), List.take_left, List.drop_left,
      others]
    rfl

/-- Whole frames, and after them bytes that deliver nothing yet. -/
theorem feed_frames {frames : List Frame} (fits : ∀ frame ∈ frames, frame.Fits limit accept) {held : Held}
    (waits : parse limit accept 0 rest = ([], held)) (later : List (List UInt8)) :
    feed limit accept ⟨0, []⟩ ((stream frames ++ rest) :: later) =
      frames.map Frame.body ++ feed limit accept held later := by
  have delivered := parse_stream fits rest
  rw [waits, List.append_nil] at delivered
  rw [feed, List.nil_append, delivered]

theorem parse_nil : parse limit accept 0 [] = ([], ⟨0, []⟩) := parse_incomplete rfl

/-- All in one piece. -/
theorem feed_whole {frames : List Frame} (fits : ∀ frame ∈ frames, frame.Fits limit accept) :
    feed limit accept ⟨0, []⟩ [stream frames] = frames.map Frame.body := by
  have delivered := feed_frames fits parse_nil []
  rw [List.append_nil] at delivered
  rw [delivered, feed, List.append_nil]

end Reader

/-! ### Where a stream may be cut -/

/-- The ways to cut a stream of frames in two. -/
inductive Cut : List Frame → List UInt8 → List UInt8 → Prop
  | between (before after : List Frame) : Cut (before ++ after) (stream before) (stream after)
  | header (before : List Frame) (frame : Frame) (after : List Frame) (first second : List UInt8)
      (split : frame.header = first ++ second) (started : first ≠ []) (more : second ≠ []) :
      Cut (before ++ frame :: after) (stream before ++ first) (second ++ (frame.body ++ stream after))
  | body (before : List Frame) (frame : Frame) (after : List Frame) (first second : List UInt8)
      (split : frame.body = first ++ second) (more : second ≠ []) :
      Cut (before ++ frame :: after) (stream before ++ (frame.header ++ first)) (second ++ stream after)

theorem Cut.cons {frames : List Frame} {first second : List UInt8} (cut : Cut frames first second)
    (frame : Frame) : Cut (frame :: frames) (frame.bytes ++ first) second := by
  cases cut with
  | between before after => exact .between (frame :: before) after
  | header before other after first second split started more =>
    rw [← List.append_assoc]
    exact .header (frame :: before) other after first second split started more
  | body before other after first second split more =>
    rw [← List.append_assoc]
    exact .body (frame :: before) other after first second split more

theorem cut_of_append {frames : List Frame} {first second : List UInt8}
    (joined : first ++ second = stream frames) : Cut frames first second := by
  induction frames generalizing first with
  | nil =>
    obtain ⟨rfl, rfl⟩ := List.append_eq_nil_iff.mp joined
    exact .between [] []
  | cons frame later ih =>
    have split : stream (frame :: later) = frame.header ++ (frame.body ++ stream later) := by
      simp [stream, Frame.bytes]
    have pastHeader (more : List UInt8) (tail : frame.body ++ stream later = more ++ second) :
        Cut (frame :: later) (frame.header ++ more) second := by
      rcases List.append_eq_append_iff.mp tail with ⟨left, rfl, rest⟩ | ⟨left, body, rfl⟩
      · rw [← List.append_assoc]
        exact (ih rest.symm).cons frame
      · by_cases complete : left = []
        · subst complete
          have whole : frame.header ++ more = frame.bytes ++ [] := by
            rw [Frame.bytes, body, List.append_nil, List.append_nil]
          rw [whole, List.nil_append]
          exact (ih rfl).cons frame
        · exact .body [] frame later more left body complete
    rw [split] at joined
    rcases List.append_eq_append_iff.mp joined with ⟨more, header, tail⟩ | ⟨more, rfl, tail⟩
    · by_cases started : first = []
      · rw [started, List.nil_append, ← split] at joined
        rw [started, joined]
        exact .between [] (frame :: later)
      · by_cases complete : more = []
        · rw [complete, List.append_nil] at header
          rw [← header, ← List.append_nil frame.header]
          exact pastHeader [] (by rw [tail, complete, List.nil_append, List.nil_append])
        · rw [tail]
          exact .header [] frame later first more header started complete
    · exact pastHeader more tail

/-! ### Pieces -/

/-- Where the pieces end in what they make up. -/
def boundaries : List (List UInt8) → List Nat
  | [] => []
  | piece :: later => piece.length :: (boundaries later).map (piece.length + ·)

/-- The position is inside the length of a frame with a body. -/
def SplitsHeader : List Frame → Nat → Prop
  | [], _ => False
  | frame :: later, position =>
    frame.body ≠ [] ∧ 0 < position ∧ position < frame.header.length ∨
      frame.bytes.length ≤ position ∧ SplitsHeader later (position - frame.bytes.length)

theorem not_splits_start (frames : List Frame) : ¬ SplitsHeader frames 0 := by
  cases frames with
  | nil => exact id
  | cons frame later =>
    have positive := List.length_pos_iff.mpr frame.terminated.ne_nil
    rintro (⟨-, impossible, -⟩ | ⟨past, -⟩)
    · exact Nat.lt_irrefl 0 impossible
    · rw [Frame.bytes, List.length_append] at past
      omega

theorem splits_append (before after : List Frame) (position : Nat) :
    SplitsHeader (before ++ after) ((stream before).length + position) ↔ SplitsHeader after position := by
  induction before generalizing position with
  | nil => simp [stream]
  | cons frame before ih =>
    have length : (stream (frame :: before)).length = frame.bytes.length + (stream before).length := by
      simp [stream]
    have header : frame.header.length ≤ frame.bytes.length := by simp [Frame.bytes]
    rw [List.cons_append, SplitsHeader, length, Nat.add_assoc, Nat.add_sub_cancel_left, ih]
    constructor
    · rintro (⟨-, -, inside⟩ | ⟨-, splits⟩)
      · omega
      · exact splits
    · exact fun splits => .inr ⟨Nat.le_add_right _ _, splits⟩

/-- Past the length of a frame, only the frames after it matter. -/
theorem splits_past_header (frame : Frame) (after : List Frame) (position : Nat) :
    SplitsHeader (frame :: after) (frame.header.length + position) ↔
      frame.body.length ≤ position ∧ SplitsHeader after (position - frame.body.length) := by
  have length : frame.bytes.length = frame.header.length + frame.body.length := by simp [Frame.bytes]
  have shifted : frame.header.length + position - (frame.header.length + frame.body.length) =
      position - frame.body.length := by omega
  rw [SplitsHeader, length, shifted]
  constructor
  · rintro (⟨-, -, inside⟩ | ⟨past, splits⟩)
    · omega
    · exact ⟨by omega, splits⟩
  · rintro ⟨past, splits⟩
    exact .inr ⟨by omega, splits⟩

/-- Of the length of a frame without a body it is no matter how much is there. -/
theorem splits_empty {frame other : Frame} {first : List UInt8} (empty : frame.body = [])
    (otherEmpty : other.body = []) (split : frame.header = first ++ other.header) (after : List Frame)
    (position : Nat) :
    SplitsHeader (frame :: after) (first.length + position) ↔ SplitsHeader (other :: after) position := by
  have length : frame.bytes.length = first.length + other.bytes.length := by
    simp [Frame.bytes, empty, otherEmpty, split]
  have shifted : first.length + position - (first.length + other.bytes.length) =
      position - other.bytes.length := by omega
  simp only [SplitsHeader, empty, otherEmpty, length, shifted, ne_eq, not_true_eq_false, false_and, false_or,
    Nat.add_le_add_iff_left]

theorem boundaries_avoid_cons {splits : Nat → Prop} {piece : List UInt8} {later : List (List UInt8)} :
    (∀ position ∈ boundaries (piece :: later), ¬ splits position) ↔
      ¬ splits piece.length ∧ ∀ position ∈ boundaries later, ¬ splits (piece.length + position) := by
  simp [boundaries]

section Pieces
variable {limit : Nat} {accept : Nat → Option Nat}

/-- A length once read is the length of the next body delivered. -/
theorem feed_pending {pending : Nat} {held : List UInt8} {pieces : List (List UInt8)}
    (short : held.length < pending) (enough : pending ≤ held.length + pieces.flatten.length) :
    ∃ body tail, feed limit accept ⟨pending, held⟩ pieces = body :: tail ∧ body.length = pending := by
  induction pieces generalizing held with
  | nil =>
    simp only [List.flatten_nil, List.length_nil] at enough
    omega
  | cons piece later ih =>
    have announced : pending ≠ 0 := by omega
    rw [List.flatten_cons, List.length_append] at enough
    by_cases complete : pending ≤ (held ++ piece).length
    · have length : ((held ++ piece).take pending).length = pending := by
        rw [List.length_take]
        omega
      rw [feed, parse_pending announced complete]
      exact ⟨_, _, rfl, length⟩
    · have stays := Nat.lt_of_not_le complete
      rw [feed, parse_short announced stays, List.nil_append]
      rw [List.length_append] at stays
      exact ih (by rw [List.length_append]; exact stays) (by rw [List.length_append]; omega)

/-- What is left of a length is read as a length of its own, and no greater one. -/
theorem feed_header_rest {max : Nat} (accepts : ∀ number ≤ max, accept number = some number)
    {header : List UInt8} (rest : List UInt8) {pieces : List (List UInt8)} (terminated : Terminated header)
    (short : header.length ≤ limit + 1) (bounded : value header ≤ max)
    (enough : value header ≤ rest.length) (joined : pieces.flatten = header ++ rest) :
    ∃ body tail, feed limit accept ⟨0, []⟩ pieces = body :: tail ∧ body.length ≤ value header := by
  induction pieces generalizing header with
  | nil =>
    have empty := (List.append_eq_nil_iff.mp joined.symm).1
    exact absurd empty terminated.ne_nil
  | cons piece later ih =>
    rw [List.flatten_cons] at joined
    have complete (more : List UInt8) (split : piece = header ++ more)
        (left : rest = more ++ later.flatten) : ∃ body tail,
          feed limit accept ⟨0, []⟩ (piece :: later) = body :: tail ∧ body.length ≤ value header := by
      have found : decode (limit + 1) ([] ++ piece) = .complete (value header) more := by
        rw [List.nil_append, split]
        exact decode_terminated terminated short more
      by_cases there : value header ≤ more.length
      · rw [feed, parse_announced found (accepts _ bounded) there]
        refine ⟨_, _, rfl, ?_⟩
        rw [List.length_take]
        exact Nat.min_le_left _ _
      · have stays := Nat.lt_of_not_le there
        rw [feed, parse_announced_short found (accepts _ bounded) stays, List.nil_append]
        have next : ∃ body tail, feed limit accept ⟨value header, more⟩ later = body :: tail ∧
            body.length = value header :=
          feed_pending stays (by rw [← List.length_append, ← left]; exact enough)
        obtain ⟨body, tail, delivered, length⟩ := next
        exact ⟨body, tail, delivered, Nat.le_of_eq length⟩
    rcases List.append_eq_append_iff.mp joined with ⟨more, rfl, tail⟩ | ⟨more, split, left⟩
    · by_cases whole : more = []
      · subst whole
        exact complete [] (by simp) (by simpa using tail.symm)
      · -- the piece ends inside the length: its bytes are lost
        rw [List.length_append] at short
        have positive := List.length_pos_iff.mpr whole
        have lost : decode (limit + 1) ([] ++ piece) = .incomplete := by
          rw [List.nil_append]
          exact decode_cut terminated whole (by omega)
        have smaller : value more ≤ value (piece ++ more) := by
          rw [value_append]
          exact Nat.le_trans (Nat.le_mul_of_pos_left _ (Nat.pow_pos (by decide))) (Nat.le_add_left _ _)
        rw [feed, parse_incomplete lost, List.nil_append]
        obtain ⟨body, rest', delivered, length⟩ := ih (terminated.of_append whole) (by omega)
          (Nat.le_trans smaller bounded) (Nat.le_trans smaller enough) tail
        exact ⟨body, rest', delivered, Nat.le_trans length smaller⟩
    · exact complete more split left

/-- A reader between two frames, or behind a length that was of no account, is
fed the bytes of these frames. -/
def Between (limit : Nat) (accept : Nat → Option Nat) (pieces : List (List UInt8)) : Prop :=
  ∀ frames : List Frame, (∀ frame ∈ frames, frame.Fits limit accept) → pieces.flatten = stream frames →
    (feed limit accept ⟨0, []⟩ pieces = frames.map Frame.body ↔
      ∀ position ∈ boundaries pieces, ¬ SplitsHeader frames position)

/-- A reader in the middle of a body is fed the rest of it and these frames. -/
def Within (limit : Nat) (accept : Nat → Option Nat) (pieces : List (List UInt8)) : Prop :=
  ∀ (first second : List UInt8) (frames : List Frame), second ≠ [] →
    (∀ frame ∈ frames, frame.Fits limit accept) → pieces.flatten = second ++ stream frames →
    (feed limit accept ⟨first.length + second.length, first⟩ pieces =
        (first ++ second) :: frames.map Frame.body ↔
      ∀ position ∈ boundaries pieces,
        ¬ (second.length ≤ position ∧ SplitsHeader frames (position - second.length)))

/-- The rest of the length of an empty frame is the length of an empty frame. -/
private theorem between_empty_rest {later : List (List UInt8)} (between : Between limit accept later)
    {frame : Frame} {after : List Frame} (fits : frame.Fits limit accept)
    (fitsAfter : ∀ other ∈ after, other.Fits limit accept) (empty : frame.body = [])
    {first second : List UInt8} (split : frame.header = first ++ second) (more : second ≠ [])
    (joined : later.flatten = second ++ (frame.body ++ stream after)) :
    feed limit accept ⟨0, []⟩ later = (frame :: after).map Frame.body ↔
      ∀ position ∈ boundaries later, ¬ SplitsHeader (frame :: after) (first.length + position) := by
  obtain ⟨short, accepted⟩ := fits
  have terminated := frame.terminated
  have announces := frame.announces
  rw [split] at terminated announces short
  rw [List.length_append] at short
  have zero : value second = 0 := by
    have factor : 0 < 128 ^ first.length := Nat.pow_pos (by decide)
    rw [value_append, empty, List.length_nil] at announces
    exact (Nat.mul_eq_zero.mp (by omega : 128 ^ first.length * value second = 0)).resolve_left
      (Nat.ne_of_gt factor)
  obtain ⟨other, rfl, otherEmpty⟩ : ∃ other : Frame, other.header = second ∧ other.body = [] :=
    ⟨⟨second, [], terminated.of_append more, zero⟩, rfl, rfl⟩
  have fitsRest : ∀ frame ∈ other :: after, frame.Fits limit accept := by
    rw [List.forall_mem_cons]
    refine ⟨⟨by omega, ?_⟩, fitsAfter⟩
    rwa [otherEmpty, ← empty]
  have same := between (other :: after) fitsRest (by simp [joined, empty, otherEmpty, stream, Frame.bytes])
  have splits (position : Nat) := splits_empty empty otherEmpty split after position
  rw [List.map_cons, otherEmpty] at same
  rw [List.map_cons, empty, same]
  simp only [splits]

/-- The rest of the length of a frame with a body announces less than the body. -/
private theorem not_delivered_after_cut {max : Nat}
    (accepts : ∀ number ≤ max, accept number = some number) {later : List (List UInt8)} {frame : Frame}
    {after : List Frame} (short : frame.header.length ≤ limit + 1) (bounded : frame.body.length ≤ max)
    (nonempty : frame.body ≠ []) {first second : List UInt8} (split : frame.header = first ++ second)
    (started : first ≠ []) (more : second ≠ [])
    (joined : later.flatten = second ++ (frame.body ++ stream after)) :
    feed limit accept ⟨0, []⟩ later ≠ (frame :: after).map Frame.body := by
  have terminated := frame.terminated
  have announces := frame.announces
  rw [split] at terminated announces short
  rw [List.length_append] at short
  rw [value_append] at announces
  have smaller : value second < frame.body.length := by
    have announced := List.length_pos_iff.mpr nonempty
    have factor : 128 ≤ 128 ^ first.length :=
      Nat.le_self_pow (Nat.ne_of_gt (List.length_pos_iff.mpr started)) 128
    have product := Nat.mul_le_mul_right (value second) factor
    omega
  have next : ∃ body tail, feed limit accept ⟨0, []⟩ later = body :: tail ∧ body.length ≤ value second :=
    feed_header_rest accepts _ (terminated.of_append more) (by omega) (by omega)
      (by rw [List.length_append]; omega) joined
  obtain ⟨body, tail, found, length⟩ := next
  rw [found, List.map_cons]
  intro same
  rw [(List.cons.inj same).1] at length
  exact Nat.not_le_of_lt smaller length

private theorem between_cons {max : Nat} (accepts : ∀ number ≤ max, accept number = some number)
    (bounds : ∀ number length, accept number = some length → length ≤ max)
    (piece : List UInt8) {later : List (List UInt8)} (between : Between limit accept later)
    (within : Within limit accept later) : Between limit accept (piece :: later) := by
  intro frames fits joined
  rw [List.flatten_cons] at joined
  rw [boundaries_avoid_cons]
  generalize rest : later.flatten = second at joined
  cases cut_of_append joined with
  | between before after =>
    obtain ⟨fitsBefore, fitsAfter⟩ := List.forall_mem_append.mp fits
    have delivered := feed_frames fitsBefore parse_nil later
    rw [List.append_nil] at delivered
    have start := splits_append before after 0
    rw [Nat.add_zero] at start
    rw [delivered, List.map_append, List.append_cancel_left_eq, between after fitsAfter rest]
    simp only [start, not_splits_start, not_false_eq_true, true_and, splits_append]
  | header before frame after first second split started more =>
    obtain ⟨fitsBefore, fitsLater⟩ := List.forall_mem_append.mp fits
    obtain ⟨fitsFrame, fitsAfter⟩ := List.forall_mem_cons.mp fitsLater
    have length : frame.header.length = first.length + second.length := by rw [split, List.length_append]
    have positive := List.length_pos_iff.mpr more
    have lost : parse limit accept 0 first = ([], ⟨0, []⟩) :=
      parse_incomplete (decode_cut (split ▸ frame.terminated) more (by have := fitsFrame.1; omega))
    rw [feed_frames fitsBefore lost, List.map_append, List.append_cancel_left_eq, List.length_append]
    simp only [Nat.add_assoc, splits_append]
    by_cases empty : frame.body = []
    · have outside : ¬ SplitsHeader (frame :: after) first.length := by
        rintro (⟨nonempty, -⟩ | ⟨past, -⟩)
        · exact nonempty empty
        · rw [Frame.bytes, List.length_append] at past
          omega
      rw [between_empty_rest between fitsFrame fitsAfter empty split more rest]
      simp only [outside, not_false_eq_true, true_and]
    · have inside : SplitsHeader (frame :: after) first.length :=
        .inl ⟨empty, List.length_pos_iff.mpr started, by omega⟩
      have missing := not_delivered_after_cut accepts fitsFrame.1 (bounds _ _ fitsFrame.2) empty split started
        more rest
      constructor
      · exact fun same => absurd same missing
      · exact fun avoided => absurd inside avoided.1
  | body before frame after first second split more =>
    obtain ⟨fitsBefore, fitsLater⟩ := List.forall_mem_append.mp fits
    obtain ⟨fitsFrame, fitsAfter⟩ := List.forall_mem_cons.mp fitsLater
    have length : frame.body.length = first.length + second.length := by rw [split, List.length_append]
    have positive := List.length_pos_iff.mpr more
    have waits : parse limit accept 0 (frame.header ++ first) = ([], ⟨frame.body.length, first⟩) :=
      parse_announced_short (decode_header fitsFrame first) fitsFrame.2 (by omega)
    have shifted (position : Nat) : first.length + position - frame.body.length = position - second.length := by
      omega
    have outside : ¬ frame.body.length ≤ first.length := by omega
    have past (position : Nat) : frame.body.length ≤ first.length + position ↔ second.length ≤ position := by
      omega
    rw [feed_frames fitsBefore waits, List.map_append, List.append_cancel_left_eq, List.map_cons, length,
      split, within first second after more fitsAfter rest, List.length_append, List.length_append]
    simp only [Nat.add_assoc, splits_append, splits_past_header, shifted, past, outside, false_and,
      not_false_eq_true, true_and]

private theorem within_cons {piece : List UInt8} {later : List (List UInt8)}
    (between : ∀ piece, Between limit accept (piece :: later)) (within : Within limit accept later) :
    Within limit accept (piece :: later) := by
  intro first second frames more fits joined
  have positive := List.length_pos_iff.mpr more
  have announced : first.length + second.length ≠ 0 := by omega
  rw [List.flatten_cons] at joined
  rw [boundaries_avoid_cons]
  -- with the rest of the body the reader is between two frames, and has the rest of the piece
  have complete (left : List UInt8) (split : piece = second ++ left)
      (tail : stream frames = left ++ later.flatten) :
      feed limit accept ⟨first.length + second.length, first⟩ (piece :: later) =
          (first ++ second) :: frames.map Frame.body ↔
        ¬ (second.length ≤ piece.length ∧ SplitsHeader frames (piece.length - second.length)) ∧
          ∀ position ∈ boundaries later, ¬ (second.length ≤ piece.length + position ∧
            SplitsHeader frames (piece.length + position - second.length)) := by
    have delivered : feed limit accept ⟨first.length + second.length, first⟩ (piece :: later) =
        (first ++ second) :: feed limit accept ⟨0, []⟩ (left :: later) := by
      have enough : first.length + second.length ≤ (first ++ piece).length := by
        rw [split, List.length_append, List.length_append]
        omega
      rw [feed, parse_pending announced enough, split, ← List.append_assoc, ← List.length_append,
        List.take_left, List.drop_left]
      rfl
    have next := between left frames fits tail.symm
    rw [boundaries_avoid_cons] at next
    have shifted (position : Nat) : second.length + position - second.length = position :=
      Nat.add_sub_cancel_left _ _
    rw [delivered, List.cons.injEq, next, split, List.length_append]
    simp only [true_and, Nat.add_assoc, Nat.le_add_right, shifted]
  rcases List.append_eq_append_iff.mp joined with ⟨gap, split, tail⟩ | ⟨left, split, tail⟩
  · by_cases whole : gap = []
    · subst whole
      exact complete [] (by simpa using split.symm) (by simpa using tail.symm)
    · have unread := List.length_pos_iff.mpr whole
      have length : second.length = piece.length + gap.length := by rw [split, List.length_append]
      have short : (first ++ piece).length < first.length + second.length := by
        rw [List.length_append]
        omega
      have sum : first.length + second.length = (first ++ piece).length + gap.length := by
        rw [List.length_append]
        omega
      have body : first ++ second = (first ++ piece) ++ gap := by rw [split, List.append_assoc]
      have outside : ¬ second.length ≤ piece.length := by omega
      have past (position : Nat) : second.length ≤ piece.length + position ↔ gap.length ≤ position := by omega
      have shifted (position : Nat) : piece.length + position - second.length = position - gap.length := by
        omega
      rw [feed, parse_short announced short, List.nil_append, sum, body,
        within (first ++ piece) gap frames whole fits tail]
      simp only [outside, false_and, not_false_eq_true, true_and, past, shifted]
  · exact complete left split tail

private theorem between_nil : Between limit accept [] := by
  intro frames _ joined
  cases frames with
  | nil => simp [feed, boundaries]
  | cons frame later =>
    have nonempty := frame.terminated.ne_nil
    simp [stream, Frame.bytes, nonempty] at joined

private theorem within_nil : Within limit accept [] := by
  intro first second frames more _ joined
  exact absurd (List.append_eq_nil_iff.mp joined.symm).1 more

/-- Fed from its start, a reader delivers the bodies of a stream exactly if no
piece ends inside the length of a frame with a body. -/
theorem feed_stream_iff {max : Nat} (accepts : ∀ number ≤ max, accept number = some number)
    (bounds : ∀ number length, accept number = some length → length ≤ max)
    {frames : List Frame} {pieces : List (List UInt8)} (fits : ∀ frame ∈ frames, frame.Fits limit accept)
    (joined : pieces.flatten = stream frames) :
    feed limit accept ⟨0, []⟩ pieces = frames.map Frame.body ↔
      ∀ position ∈ boundaries pieces, ¬ SplitsHeader frames position := by
  have both : Between limit accept pieces ∧ Within limit accept pieces := by
    clear fits joined
    induction pieces with
    | nil => exact ⟨between_nil, within_nil⟩
    | cons piece later ih =>
      have between (piece : List UInt8) := between_cons accepts bounds piece ih.1 ih.2
      exact ⟨between piece, within_cons between ih.2⟩
  exact both.1 frames fits joined

end Pieces

end ShipNet.Framing
