import ShipNet.ProcessDescriptors
import ShipNet.Transition

/-! Who closes which descriptor, over whole runs of a process. Every object closes what it
has opened, and once, but for two: the destructor of a listener whose `Bind` has failed early
closes number 0 too, and a listener at work closes the numbers that it had once more. -/
namespace ShipNet.Process
open Fallible Transition EpollListener DescriptorTable

variable {p : Process} {name : Nat} {holder : Holder} {table : DescriptorTable}

/-! ### What a process keeps -/

/-- Every open file of the objects is of one of them, which keeps its number, or was left
behind. What was left behind is open, and nobody keeps its number. -/
structure Accounted (p : Process) : Prop where
  apart : ∀ name other file, file ∈ p.files name → file ∈ p.files other → name = other
  holds : ∀ name holder, p.holders name = some holder → ∀ number ∈ holder.keeps,
    number = -1 ∨ ∃ file ∈ p.files name, p.table.Holds number file
  kept : ∀ name, ∀ file ∈ p.files name, ∀ number, p.table.Holds number file →
    (∃ holder, p.holders name = some holder ∧ number ∈ holder.keeps) ∨ file ∈ p.leaked
  leaks : ∀ file ∈ p.leaked, ∃ number, p.table.Holds number file ∧
    ∀ name holder, p.holders name = some holder → number ∉ holder.keeps

/-- A listener that did not come to one of its calls has 0 in that field. Its two numbers
are different, if both are open. -/
def Formed : Holder → Prop
  | .listener l bound polls failed =>
    (failed = false → (polls = false → l.epollFileDescriptor = 0) ∧
      (bound = false → polls = false ∧ l.socketFileDescriptor = 0)) ∧
    (bound = true → polls = true → l.epollFileDescriptor = l.socketFileDescriptor → l.epollFileDescriptor = -1)
  | .eventLoop _ | .connection _ _ => True

/-- The accounts, and what the holders and the numbers are. -/
structure Ordered (p : Process) : Prop extends p.Accounted where
  negative : p.table.files (-1) = none
  below : ∀ name, ∀ file ∈ p.files name, file < p.table.opened
  later : ∀ name, p.created ≤ name → p.holders name = none ∧ p.files name = []
  formed : ∀ name holder, p.holders name = some holder → Formed holder

theorem Ordered.early (ordered : p.Ordered) (there : p.holders name = some holder) : name < p.created := by
  by_contra beyond
  rw [(ordered.later name (Nat.le_of_not_lt beyond)).1] at there
  cases there

theorem Ordered.own (ordered : p.Ordered) (there : p.holders name = some holder) {number : Int} {file : Nat}
    (member : number ∈ holder.keeps) (now : p.table.Holds number file) : file ∈ p.files name := by
  rcases ordered.holds name holder there number member with rfl | ⟨own, mine, held⟩
  · cases ordered.negative.symm.trans now
  · cases held.symm.trans now
    exact mine

/-! ### Closing -/

theorem closes_fold (name : Nat) (numbers : List Int) (p : Process) : numbers.foldl (closeBy name) p =
    { p with
      table := p.table.closeAll numbers
      leaked := (numbers.foldl (closeBy name) p).leaked
      strays := (numbers.foldl (closeBy name) p).strays } := by
  induction numbers generalizing p with
  | nil => rfl
  | cons number later ih =>
    rw [List.foldl_cons, ih]
    rfl

/-- What is closed is not left behind any more. -/
theorem mem_closes_leaked {numbers : List Int} {file : Nat} : file ∈ (numbers.foldl (closeBy name) p).leaked ↔
    file ∈ p.leaked ∧ ∀ number ∈ numbers, ¬ p.table.Holds number file := by
  induction numbers generalizing p with
  | nil => simp
  | cons number later ih =>
    have first : file ∈ (p.closeBy name number).leaked ↔ file ∈ p.leaked ∧ ¬ p.table.Holds number file := by
      simp [closeBy, Holds]
    rw [List.foldl_cons, ih, first, List.forall_mem_cons, and_assoc]
    refine and_congr_right fun _ => and_congr_right fun apart => forall₂_congr fun other _ => not_congr ?_
    constructor
    · exact close_kept p.table number other file
    · intro now
      refine now.close ?_
      rintro rfl
      exact apart now

theorem closeBy_own {number : Int} (own : ∀ file, p.table.Holds number file → file ∈ p.files name) :
    (p.closeBy name number).strays = p.strays := by
  cases there : p.table.files number with
  | none => simp [closeBy, there]
  | some file => simp [closeBy, there, own file there]

theorem closes_own {numbers : List Int}
    (own : ∀ number ∈ numbers, ∀ file, p.table.Holds number file → file ∈ p.files name) :
    (numbers.foldl (closeBy name) p).strays = p.strays := by
  induction numbers generalizing p with
  | nil => rfl
  | cons number later ih =>
    obtain ⟨first, others⟩ := List.forall_mem_cons.mp own
    rw [List.foldl_cons, ih ?_]
    · exact closeBy_own first
    · intro other member file holds
      exact others other member file (close_kept p.table number other file holds)

theorem closeBy_strays (name : Nat) (p : Process) (number : Int) : p.strays <+: (p.closeBy name number).strays := by
  cases there : p.table.files number with
  | none => simp [closeBy, there]
  | some file =>
    by_cases own : file ∈ p.files name
    · simp [closeBy, there, own]
    · simp [closeBy, there, own]

theorem closes_strays (name : Nat) (numbers : List Int) (p : Process) :
    p.strays <+: (numbers.foldl (closeBy name) p).strays := by
  induction numbers generalizing p with
  | nil => exact List.prefix_rfl
  | cons number later ih => exact (closeBy_strays name p number).trans (ih _)

/-- A number of somebody else among them is closed wrongly. -/
theorem closes_other {numbers : List Int} {number : Int} {file : Nat} (member : number ∈ numbers)
    (now : p.table.Holds number file) (others : file ∉ p.files name) :
    (numbers.foldl (closeBy name) p).strays ≠ [] := by
  induction numbers generalizing p with
  | nil => cases member
  | cons first later ih =>
    rw [List.foldl_cons]
    by_cases same : number = first
    · subst same
      have stray : (p.closeBy name number).strays = p.strays ++ [(name, number)] := by
        rw [Holds] at now
        simp [closeBy, now, others]
      intro empty
      have longer := closes_strays name later (p.closeBy name number)
      rw [empty, stray] at longer
      simp at longer
    · exact ih (List.mem_of_ne_of_mem same member) (now.close same) others

/-- A holder closes numbers that stand for no file of anybody else, and keeps the others. -/
theorem Ordered.release (ordered : p.Ordered) (there : p.holders name = some holder) {numbers : List Int}
    (own : ∀ number ∈ numbers, ∀ file, p.table.Holds number file → file ∈ p.files name) {left : Option Holder}
    (less : ∀ after, left = some after →
      (∀ number ∈ after.keeps, number ∈ holder.keeps ∧ number ∉ numbers) ∧ Formed after)
    (all : ∀ number ∈ holder.keeps, number ∈ numbers ∨ ∃ after, left = some after ∧ number ∈ after.keeps) :
    Ordered { numbers.foldl (closeBy name) p with
      holders := Function.update (numbers.foldl (closeBy name) p).holders name left } := by
  have still {number : Int} {file : Nat} :
      (p.table.closeAll numbers).Holds number file ↔ number ∉ numbers ∧ p.table.Holds number file := by
    rw [Holds, closeAll_files]
    by_cases member : number ∈ numbers
    · simp [member]
    · simp [member, Holds]
  have others {other : Nat} {kept : Holder} (different : other ≠ name)
      (live : Function.update p.holders name left other = some kept) : p.holders other = some kept := by
    rwa [Function.update_of_ne different] at live
  have remains {kept : Holder} (live : Function.update p.holders name left name = some kept) : left = some kept := by
    rwa [Function.update_self] at live
  rw [closes_fold]
  refine ⟨⟨ordered.apart, ?_, ?_, ?_⟩, ?_, ?_, ?_, ?_⟩
  · intro other kept live number member
    by_cases same : other = name
    · subst same
      obtain ⟨before, survives⟩ := (less kept (remains live)).1 number member
      rcases ordered.holds other holder there number before with unused | ⟨file, mine, holds⟩
      · exact .inl unused
      · exact .inr ⟨file, mine, still.mpr ⟨survives, holds⟩⟩
    · rcases ordered.holds other kept (others same live) number member with unused | ⟨file, mine, holds⟩
      · exact .inl unused
      · refine .inr ⟨file, mine, still.mpr ⟨fun closed => ?_, holds⟩⟩
        exact same (ordered.apart _ _ file mine (own number closed file holds))
  · intro other file mine number holds
    obtain ⟨survives, before⟩ := still.mp holds
    rcases ordered.kept other file mine number before with ⟨kept, live, member⟩ | leaked
    · left
      by_cases same : other = name
      · subst same
        cases there.symm.trans live
        obtain ⟨after, rest, member⟩ := (all number member).resolve_left survives
        exact ⟨after, rest ▸ Function.update_self .., member⟩
      · exact ⟨kept, (Function.update_of_ne same ..).trans live, member⟩
    · refine .inr (mem_closes_leaked.mpr ⟨leaked, fun closed member now => ?_⟩)
      rw [p.table.single _ _ _ now before] at member
      exact survives member
  · intro file among
    obtain ⟨leaked, apart⟩ := mem_closes_leaked.mp among
    obtain ⟨number, now, unkept⟩ := ordered.leaks file leaked
    refine ⟨number, still.mpr ⟨fun closed => apart number closed now, now⟩, ?_⟩
    intro other kept live member
    by_cases same : other = name
    · subst same
      exact unkept other holder there ((less kept (remains live)).1 number member).1
    · exact unkept other kept (others same live) member
  · show (p.table.closeAll numbers).files (-1) = none
    rw [closeAll_files, ordered.negative, ite_self]
  · intro other file mine
    show file < (p.table.closeAll numbers).opened
    rw [closeAll_opened]
    exact ordered.below other file mine
  · intro other beyond
    obtain ⟨dead, empty⟩ := ordered.later other beyond
    refine ⟨?_, empty⟩
    have different : other ≠ name := by
      rintro rfl
      cases dead.symm.trans there
    exact (Function.update_of_ne different ..).trans dead
  · intro other kept live
    by_cases same : other = name
    · subst same
      exact (less kept (remains live)).2
    · exact ordered.formed other kept (others same live)

/-- The rest of the process closes a file of its own. -/
theorem Ordered.foreign (ordered : p.Ordered) {number : Int}
    (others : ∀ file, p.table.Holds number file → p.Foreign file) : (p.next (.closes number)).Ordered := by
  refine ⟨⟨ordered.apart, ?_, ?_, ?_⟩, ?_, ordered.below, ordered.later, ordered.formed⟩
  · intro name live there other member
    rcases ordered.holds name live there other member with unused | ⟨file, mine, now⟩
    · exact .inl unused
    · refine .inr ⟨file, mine, now.close ?_⟩
      rintro rfl
      exact others file now name mine
  · intro name file mine other now
    have before := close_kept p.table number other file now
    rcases ordered.kept name file mine other before with kept | leaked
    · exact .inl kept
    · refine .inr (List.mem_filter.mpr ⟨leaked, decide_eq_true fun closed => ?_⟩)
      exact others file closed name mine
  · intro file among
    obtain ⟨leaked, apart⟩ := List.mem_filter.mp among
    obtain ⟨other, now, unkept⟩ := ordered.leaks file leaked
    refine ⟨other, now.close ?_, unkept⟩
    rintro rfl
    exact of_decide_eq_true apart now
  · show (p.table.close number).files (-1) = none
    simp [DescriptorTable.close, Function.update_apply, ordered.negative]

/-! ### Opening -/

theorem holder_of_update {other : Nat} {live : Holder}
    (there : Function.update p.holders name (some holder) other = some live) :
    (other = name ∧ live = holder) ∨ (other ≠ name ∧ p.holders other = some live) := by
  by_cases same : other = name
  · subst same
    rw [Function.update_self] at there
    exact .inl ⟨rfl, (Option.some.inj there).symm⟩
  · rw [Function.update_of_ne same] at there
    exact .inr ⟨same, there⟩

theorem mem_update_files {other : Nat} {new : List Nat} {file : Nat} :
    file ∈ Function.update p.files name (p.files name ++ new) other ↔
      file ∈ p.files other ∨ (other = name ∧ file ∈ new) := by
  by_cases same : other = name
  · subst same
    simp
  · simp [same]

/-- A holder goes on with other numbers: those of the files that a call has opened, and some
of those that it had. The others are overwritten. -/
theorem Ordered.renew (ordered : p.Ordered) (early : name < p.created) (grown : Extends p.table table)
    (negative : table.files (-1) = none) {new : List Nat}
    (fresh : ∀ file ∈ new, p.table.opened ≤ file ∧ file < table.opened) (overwritten : List Int)
    (holds : ∀ number ∈ holder.keeps, number = -1 ∨ (∃ file ∈ new, table.Holds number file) ∨
      ∃ live, p.holders name = some live ∧ number ∈ live.keeps)
    (kept : ∀ file ∈ new, ∃ number ∈ holder.keeps, table.Holds number file)
    (rest : ∀ live, p.holders name = some live → ∀ number ∈ live.keeps,
      number ∈ holder.keeps ∨ number ∈ overwritten)
    (lost : ∀ number ∈ overwritten, ∀ file, p.table.Holds number file →
      file ∈ p.files name ∧ number ∉ holder.keeps)
    (formed : Formed holder) :
    Ordered { p with
      table := table
      holders := Function.update p.holders name (some holder)
      files := Function.update p.files name (p.files name ++ new)
      leaked := p.leaked ++ overwritten.filterMap p.table.files } := by
  have older {other file : Nat} (mine : file ∈ p.files other) : file ∉ new := by
    intro opened
    exact absurd (ordered.below other file mine) (Nat.not_lt.mpr (fresh file opened).1)
  refine ⟨⟨?_, ?_, ?_, ?_⟩, negative, ?_, ?_, ?_⟩
  · intro first second file one two
    rcases mem_update_files.mp one with old | ⟨rfl, opened⟩
    · rcases mem_update_files.mp two with old' | ⟨rfl, opened⟩
      · exact ordered.apart first second file old old'
      · exact absurd opened (older old)
    · rcases mem_update_files.mp two with old | ⟨rfl, -⟩
      · exact absurd opened (older old)
      · rfl
  · intro other live there number member
    rcases holder_of_update there with ⟨rfl, rfl⟩ | ⟨-, before⟩
    · rcases holds number member with unused | ⟨file, opened, now⟩ | ⟨live, before, member⟩
      · exact .inl unused
      · exact .inr ⟨file, mem_update_files.mpr (.inr ⟨rfl, opened⟩), now⟩
      · rcases ordered.holds other live before number member with unused | ⟨file, mine, now⟩
        · exact .inl unused
        · exact .inr ⟨file, mem_update_files.mpr (.inl mine), grown.kept number file now⟩
    · rcases ordered.holds other live before number member with unused | ⟨file, mine, now⟩
      · exact .inl unused
      · exact .inr ⟨file, mem_update_files.mpr (.inl mine), grown.kept number file now⟩
  · intro other file mine number now
    rcases mem_update_files.mp mine with old | ⟨rfl, opened⟩
    · have before := grown.old number file now (ordered.below other file old)
      rcases ordered.kept other file old number before with ⟨live, there, member⟩ | leaked
      · by_cases same : other = name
        · subst same
          rcases rest live there number member with goes | dropped
          · exact .inl ⟨holder, Function.update_self .., goes⟩
          · exact .inr (List.mem_append_right _ (List.mem_filterMap.mpr ⟨number, dropped, before⟩))
        · exact .inl ⟨live, (Function.update_of_ne same ..).trans there, member⟩
      · exact .inr (List.mem_append_left _ leaked)
    · obtain ⟨own, member, held⟩ := kept file opened
      rw [table.single number own file now held]
      exact .inl ⟨holder, Function.update_self .., member⟩
  · intro file among
    rcases List.mem_append.mp among with leaked | dropped
    · obtain ⟨number, now, unkept⟩ := ordered.leaks file leaked
      refine ⟨number, grown.kept number file now, ?_⟩
      intro other live there member
      rcases holder_of_update there with ⟨rfl, rfl⟩ | ⟨-, before⟩
      · rcases holds number member with rfl | ⟨another, opened, held⟩ | ⟨live, before, member⟩
        · cases ordered.negative.symm.trans now
        · cases held.symm.trans (grown.kept number file now)
          exact absurd (p.table.named _ _ now) (Nat.not_lt.mpr (fresh file opened).1)
        · exact unkept other live before member
      · exact unkept other live before member
    · obtain ⟨number, member, now⟩ := List.mem_filterMap.mp dropped
      obtain ⟨mine, unkept⟩ := lost number member file now
      refine ⟨number, grown.kept number file now, ?_⟩
      intro other live there member
      rcases holder_of_update there with ⟨rfl, rfl⟩ | ⟨different, before⟩
      · exact unkept member
      · exact different (ordered.apart _ _ file (ordered.own before member now) mine)
  · intro other file mine
    rcases mem_update_files.mp mine with old | ⟨rfl, opened⟩
    · exact lt_of_lt_of_le (ordered.below other file old) grown.opened
    · exact (fresh file opened).2
  · intro other beyond
    have different : other ≠ name := Nat.ne_of_gt (Nat.lt_of_lt_of_le early beyond)
    obtain ⟨dead, empty⟩ := ordered.later other beyond
    exact ⟨(Function.update_of_ne different ..).trans dead, (Function.update_of_ne different ..).trans empty⟩
  · intro other live there
    rcases holder_of_update there with ⟨-, rfl⟩ | ⟨-, before⟩
    · exact formed
    · exact ordered.formed other live before

/-- What a call that opens files leaves of the accounts, for a new holder of the files. -/
theorem Ordered.adopt (ordered : p.Ordered) (grown : Extends p.table table) (negative : table.files (-1) = none)
    {files : List Nat} (fresh : ∀ file ∈ files, p.table.opened ≤ file ∧ file < table.opened)
    (holds : ∀ number ∈ holder.keeps, number = -1 ∨ ∃ file ∈ files, table.Holds number file)
    (kept : ∀ file ∈ files, ∃ number ∈ holder.keeps, table.Holds number file) (formed : Formed holder) :
    Ordered ({ p with table := table }.adopt holder files) := by
  obtain ⟨dead, empty⟩ := ordered.later p.created (Nat.le_refl _)
  have counted : Ordered { p with created := p.created + 1 } :=
    { ordered with later := fun name beyond => ordered.later name (Nat.le_of_succ_le beyond) }
  have none {live : Holder} (there : p.holders p.created = some live) : False := by
    cases dead.symm.trans there
  have renewed := counted.renew (Nat.lt_succ_self p.created) grown negative fresh []
    (fun number member => (holds number member).imp_right .inl) kept
    (fun live there => (none there).elim) (fun number impossible => by cases impossible) formed
  simpa [empty, Process.adopt] using renewed

/-- The same without a holder: nobody will close the files. -/
theorem Ordered.leak (ordered : p.Ordered) (grown : Extends p.table table) (negative : table.files (-1) = none)
    {files : List Nat} (fresh : ∀ file ∈ files, p.table.opened ≤ file ∧ file < table.opened)
    (holds : ∀ file ∈ files, ∃ number, table.Holds number file) :
    Ordered { p with table := table, leaked := p.leaked ++ files } := by
  refine ⟨⟨ordered.apart, ?_, ?_, ?_⟩, negative, ?_, ordered.later, ordered.formed⟩
  · intro name live there number member
    rcases ordered.holds name live there number member with unused | ⟨file, mine, now⟩
    · exact .inl unused
    · exact .inr ⟨file, mine, grown.kept number file now⟩
  · intro name file mine number now
    have before := grown.old number file now (ordered.below name file mine)
    exact (ordered.kept name file mine number before).imp_right (List.mem_append_left _)
  · intro file among
    rcases List.mem_append.mp among with leaked | new
    · obtain ⟨number, now, unkept⟩ := ordered.leaks file leaked
      exact ⟨number, grown.kept number file now, unkept⟩
    · obtain ⟨number, now⟩ := holds file new
      refine ⟨number, now, ?_⟩
      intro name live there member
      rcases ordered.holds name live there number member with rfl | ⟨own, mine, held⟩
      · cases negative.symm.trans now
      · cases (grown.kept number own held).symm.trans now
        exact absurd (ordered.below name file mine) (Nat.not_lt.mpr (fresh file new).1)
  · intro name file mine
    exact lt_of_lt_of_le (ordered.below name file mine) grown.opened

/-! ### What the calls open -/

theorem install_negative {number : Int} (negative : table.files (-1) = none) (free : Free table number) :
    (table.install number).files (-1) = none := by
  have apart : (-1 : Int) ≠ number := by
    have := free.1
    omega
  exact (Function.update_of_ne apart ..).trans negative

theorem openedBetween_install (number : Int) : openedBetween table (table.install number) = [table.opened] := by
  simp [openedBetween, install]

theorem openedBetween_both (number other : Int) :
    openedBetween table ((table.install number).install other) = [table.opened, table.opened + 1] := by
  simp [openedBetween, install, Nat.add_assoc, List.range'_succ]

theorem mem_openedBetween {before after : DescriptorTable} (grown : Extends before after) {file : Nat}
    (opened : file ∈ openedBetween before after) : before.opened ≤ file ∧ file < after.opened := by
  have := grown.opened
  have := List.mem_range'_1.mp opened
  omega

/-- A new holder of the one file that a call has opened. -/
theorem Ordered.adopt_one (ordered : p.Ordered) {number : Int} (free : Free p.table number)
    (keeps : ∀ other ∈ holder.keeps, other = -1 ∨ other = number) (member : number ∈ holder.keeps)
    (formed : Formed holder) :
    Ordered ({ p with table := p.table.install number }.adopt holder [p.table.opened]) := by
  have now := install_holds p.table number
  refine ordered.adopt ((Extends.refl p.table).install free.2) (install_negative ordered.negative free) ?_ ?_ ?_ formed
  · simp [install]
  · intro other mine
    rcases keeps other mine with unused | rfl
    · exact .inl unused
    · exact .inr ⟨p.table.opened, by simp, now⟩
  · simpa using ⟨number, member, now⟩

/-- `Bind` opens nothing, the socket alone, or the socket and the epoll instance. -/
theorem bind_cases {l : EpollListener} {answers : BindAnswers} (possible : answers.Possible table) :
    (answers.polls = false ∧ (EpollListener.bind l table answers).2 = (⟨l.epollFileDescriptor, -1⟩, table)) ∨
    (Free table answers.socket ∧ answers.polls = false ∧
      (EpollListener.bind l table answers).2 =
        (⟨l.epollFileDescriptor, answers.socket⟩, table.install answers.socket)) ∨
    (Free table answers.socket ∧ answers.polls = true ∧
      (EpollListener.bind l table answers).2 = (⟨-1, answers.socket⟩, table.install answers.socket)) ∨
    (Free table answers.socket ∧ answers.polls = true ∧ Free (table.install answers.socket) answers.epollCreate ∧
      (EpollListener.bind l table answers).2 =
        (⟨answers.epollCreate, answers.socket⟩, (table.install answers.socket).install answers.epollCreate)) := by
  have opened {number : Int} {table : DescriptorTable} (free : Free table number) : number ≠ -1 := by
    have := free.1
    omega
  rcases possible.socket with failed | free
  · exact .inl (by simp [EpollListener.bind, BindAnswers.polls, failed])
  · refine .inr ?_
    have socket := opened free
    cases ioctl : answers.ioctl with
    | false => exact .inl ⟨free, by simp [BindAnswers.polls, ioctl], by simp [EpollListener.bind, socket, ioctl]⟩
    | true =>
      cases bound : answers.bind with
      | false =>
        exact .inl ⟨free, by simp [BindAnswers.polls, bound], by simp [EpollListener.bind, socket, ioctl, bound]⟩
      | true =>
        cases listens : answers.listen with
        | false =>
          exact .inl ⟨free, by simp [BindAnswers.polls, listens],
            by simp [EpollListener.bind, socket, ioctl, bound, listens]⟩
        | true =>
          refine .inr ?_
          have polls : answers.polls = true := by simp [BindAnswers.polls, socket, ioctl, bound, listens]
          rcases possible.epollCreate with failed | free'
          · exact .inl ⟨free, polls, by simp [EpollListener.bind, socket, ioctl, bound, listens, failed]⟩
          · refine .inr ⟨free, polls, free', ?_⟩
            cases added : answers.epollCtl with
            | true => simp [EpollListener.bind, socket, ioctl, bound, listens, opened free', added]
            | false => simp [EpollListener.bind, socket, ioctl, bound, listens, opened free', added]

/-- What `Bind` changes: the numbers that it assigns are of files that it has opened, which
were not in use, or `-1`. -/
structure Binds (l : EpollListener) (table : DescriptorTable) (answers : BindAnswers) (after : EpollListener)
    (opened : DescriptorTable) : Prop where
  grown : Extends table opened
  negative : table.files (-1) = none → opened.files (-1) = none
  unpolled : answers.polls = false → after.epollFileDescriptor = l.epollFileDescriptor
  fresh : ∀ number, number = after.socketFileDescriptor ∨ (answers.polls = true ∧ number = after.epollFileDescriptor) →
    number = -1 ∨ (table.files number = none ∧ ∃ file ∈ openedBetween table opened, opened.Holds number file)
  kept : ∀ file ∈ openedBetween table opened, ∃ number, (number = after.socketFileDescriptor ∨
    (answers.polls = true ∧ number = after.epollFileDescriptor)) ∧ opened.Holds number file
  distinct : answers.polls = true → after.epollFileDescriptor = after.socketFileDescriptor →
    after.epollFileDescriptor = -1

theorem bind_binds (l : EpollListener) {answers : BindAnswers} (possible : answers.Possible table) :
    Binds l table answers (EpollListener.bind l table answers).2.1 (EpollListener.bind l table answers).2.2 := by
  rcases bind_cases (l := l) possible with ⟨polls, done⟩ | ⟨free, polls, done⟩ | ⟨free, polls, done⟩ |
    ⟨free, polls, free', done⟩
  · rw [done]
    exact {
      grown := .refl table
      negative := id
      unpolled := fun _ => rfl
      fresh := by simp [polls]
      kept := by simp [openedBetween]
      distinct := by simp [polls] }
  · rw [done]
    have now := install_holds table answers.socket
    exact {
      grown := (Extends.refl table).install free.2
      negative := fun negative => install_negative negative free
      unpolled := fun _ => rfl
      fresh := by
        intro number assigned
        have same : number = answers.socket := by simpa [polls] using assigned
        rw [same, openedBetween_install]
        exact .inr ⟨free.2, table.opened, by simp, now⟩
      kept := by
        intro file opened
        rw [openedBetween_install, List.mem_singleton] at opened
        exact ⟨answers.socket, .inl rfl, opened ▸ now⟩
      distinct := by simp [polls] }
  · rw [done]
    have now := install_holds table answers.socket
    exact {
      grown := (Extends.refl table).install free.2
      negative := fun negative => install_negative negative free
      unpolled := by simp [polls]
      fresh := by
        rintro number (rfl | ⟨-, rfl⟩)
        · rw [openedBetween_install]
          exact .inr ⟨free.2, table.opened, by simp, now⟩
        · exact .inl rfl
      kept := by
        intro file opened
        rw [openedBetween_install, List.mem_singleton] at opened
        exact ⟨answers.socket, .inl rfl, opened ▸ now⟩
      distinct := fun _ _ => rfl }
  · rw [done]
    have socket := (install_holds table answers.socket).install free'.2
    have polled := install_holds (table.install answers.socket) answers.epollCreate
    have apart : answers.epollCreate ≠ answers.socket := by
      intro same
      have impossible := free'.2
      rw [same] at impossible
      cases impossible.symm.trans (install_holds table answers.socket)
    exact {
      grown := ((Extends.refl table).install free.2).install free'.2
      negative := fun negative => install_negative (install_negative negative free) free'
      unpolled := by simp [polls]
      fresh := by
        rintro number (rfl | ⟨-, rfl⟩)
        · rw [openedBetween_both]
          exact .inr ⟨free.2, table.opened, by simp, socket⟩
        · rw [openedBetween_both]
          have unused : table.files answers.epollCreate = none := (Function.update_of_ne apart ..).symm.trans free'.2
          exact .inr ⟨unused, table.opened + 1, by simp, polled⟩
      kept := by
        intro file opened
        have either : file = table.opened ∨ file = table.opened + 1 := by simpa [openedBetween_both] using opened
        rcases either with rfl | rfl
        · exact ⟨answers.socket, .inl rfl, socket⟩
        · exact ⟨answers.epollCreate, .inr ⟨polls, rfl⟩, polled⟩
      distinct := fun _ same => absurd same apart }

/-- `Bind` again leaves the files behind whose numbers it overwrites. -/
theorem Ordered.bound (ordered : p.Ordered) {answers : BindAnswers} (possible : p.Possible (.bind name answers)) :
    (p.bind name answers).Ordered := by
  obtain ⟨⟨l, bound, polls, there⟩, answerable⟩ := possible
  have binds := bind_binds l answerable
  unfold Process.bind
  rw [there]
  simp only
  generalize (EpollListener.bind l p.table answers).2.1 = after at binds
  generalize (EpollListener.bind l p.table answers).2.2 = table at binds
  have formed := (ordered.formed name _ there)
  have keeps (number : Int) : number ∈ (Holder.listener after true (polls || answers.polls) false).keeps ↔
      ((polls = true ∨ answers.polls = true) ∧ number = after.epollFileDescriptor) ∨
        number = after.socketFileDescriptor := by
    cases polls <;> cases answers.polls <;> simp [Holder.keeps]
  have before (number : Int) : number ∈ (Holder.listener l bound polls false).keeps ↔
      (polls = true ∧ number = l.epollFileDescriptor) ∨ (bound = true ∧ number = l.socketFileDescriptor) := by
    cases polls <;> cases bound <;> simp [Holder.keeps]
  have dropped (number : Int) : number ∈ (if polls && answers.polls then [l.epollFileDescriptor] else []) ++
      (if bound then [l.socketFileDescriptor] else []) ↔
        ((polls = true ∧ answers.polls = true) ∧ number = l.epollFileDescriptor) ∨
          (bound = true ∧ number = l.socketFileDescriptor) := by
    cases polls <;> cases answers.polls <;> cases bound <;> simp
  refine ordered.renew (ordered.early there) binds.grown (binds.negative ordered.negative)
    (fun file opened => mem_openedBetween binds.grown opened) _ ?_ ?_ ?_ ?_ ?_
  · intro number member
    have new (assigned : number = after.socketFileDescriptor ∨
        (answers.polls = true ∧ number = after.epollFileDescriptor)) : number = -1 ∨
          (∃ file ∈ openedBetween p.table table, table.Holds number file) ∨
          ∃ live, p.holders name = some live ∧ number ∈ live.keeps :=
      (binds.fresh number assigned).imp_right fun held => .inl held.2
    rcases (keeps number).mp member with ⟨either, same⟩ | same
    · by_cases answered : answers.polls = true
      · exact new (.inr ⟨answered, same⟩)
      · have before_ := same.trans (binds.unpolled (Bool.eq_false_iff.mpr answered))
        exact .inr (.inr ⟨_, there, (before number).mpr (.inl ⟨either.resolve_right answered, before_⟩)⟩)
    · exact new (.inl same)
  · intro file opened
    obtain ⟨number, assigned, now⟩ := binds.kept file opened
    refine ⟨number, (keeps number).mpr ?_, now⟩
    rcases assigned with same | ⟨answered, same⟩
    · exact .inr same
    · exact .inl ⟨.inr answered, same⟩
  · intro live there' number member
    cases there.symm.trans there'
    rcases (before number).mp member with ⟨polled, same⟩ | had
    · by_cases answered : answers.polls = true
      · exact .inr ((dropped number).mpr (.inl ⟨⟨polled, answered⟩, same⟩))
      · have goes := same.trans (binds.unpolled (Bool.eq_false_iff.mpr answered)).symm
        exact .inl ((keeps number).mpr (.inl ⟨.inl polled, goes⟩))
    · exact .inr ((dropped number).mpr (.inr had))
  · intro number member file now
    have used : number ≠ -1 := by
      rintro rfl
      cases ordered.negative.symm.trans now
    have unassigned : ¬ (number = after.socketFileDescriptor ∨
        (answers.polls = true ∧ number = after.epollFileDescriptor)) := by
      intro assigned
      rcases binds.fresh number assigned with unused | ⟨unused, -⟩
      · exact used unused
      · cases unused.symm.trans now
    have had := (dropped number).mp member
    refine ⟨ordered.own there ((before number).mpr (had.imp_left fun both => ⟨both.1.1, both.2⟩)) now, ?_⟩
    intro kept
    rcases (keeps number).mp kept with ⟨either, same⟩ | same
    · have unanswered : answers.polls ≠ true := fun answered => unassigned (.inr ⟨answered, same⟩)
      have before_ := same.trans (binds.unpolled (Bool.eq_false_iff.mpr unanswered))
      obtain ⟨hadSocket, sameSocket⟩ := had.resolve_left fun both => unanswered both.1.2
      have clash := formed.2 hadSocket (either.resolve_right unanswered) (before_.symm.trans sameSocket)
      exact used (before_.trans clash)
    · exact unassigned (.inl same)
  · refine ⟨fun _ => ⟨?_, fun impossible => by cases impossible⟩, ?_⟩
    · intro neither
      obtain ⟨unpolled, unanswered⟩ := Bool.or_eq_false_iff.mp neither
      exact (binds.unpolled unanswered).trans ((formed.1 rfl).1 unpolled)
    · intro _ either same
      by_cases answered : answers.polls = true
      · exact binds.distinct answered same
      · have before_ := binds.unpolled (Bool.eq_false_iff.mpr answered)
        have polled : polls = true := by simpa [answered] using either
        rcases ordered.holds name _ there l.epollFileDescriptor ((before _).mpr (.inl ⟨polled, rfl⟩)) with
          unused | ⟨file, -, now⟩
        · exact before_.trans unused
        · rcases binds.fresh after.socketFileDescriptor (.inl rfl) with unused | ⟨unused, -⟩
          · exact same.trans unused
          · rw [← same, before_] at unused
            cases unused.symm.trans now

/-! ### Destroying, closing and failing -/

theorem keeps_closes {number : Int} (member : number ∈ holder.keeps) : number ∈ holder.closes := by
  cases holder with
  | eventLoop epollFileDescriptor => exact member
  | connection socketFileDescriptor closer => exact member
  | listener l bound polls failed =>
    cases bound <;> cases polls <;> simp_all [Holder.keeps, Holder.closes]

/-- What a destructor closes beside: number 0, for a call that `Bind` did not come to. -/
theorem closes_cases (formed : Formed holder) (idle : ∀ l bound polls, holder ≠ .listener l bound polls true)
    {number : Int} (member : number ∈ holder.closes) :
    number ∈ holder.keeps ∨ number = 0 ∧ ∃ l bound failed, holder = .listener l bound false failed := by
  cases holder with
  | eventLoop epollFileDescriptor => exact .inl member
  | connection socketFileDescriptor closer => exact .inl member
  | listener l bound polls failed =>
    cases failed with
    | true => exact absurd rfl (idle l bound polls)
    | false =>
      obtain ⟨epoll, socket⟩ := formed.1 rfl
      have either : number = l.epollFileDescriptor ∨ number = l.socketFileDescriptor := by
        simpa [Holder.closes] using member
      rcases either with rfl | rfl
      · cases polls with
        | true => exact .inl (by simp [Holder.keeps])
        | false => exact .inr ⟨epoll rfl, l, bound, false, rfl⟩
      · cases bound with
        | true => exact .inl (by simp [Holder.keeps])
        | false =>
          obtain ⟨early, zero⟩ := socket rfl
          exact .inr ⟨zero, l, false, false, by rw [early]⟩

theorem Ordered.destroy (ordered : p.Ordered)
    (idle : ∀ l bound polls, p.holders name ≠ some (.listener l bound polls true))
    (harmless : p.Harmless (.destroy name)) : (p.destroy name).Ordered ∧ (p.destroy name).strays = p.strays := by
  unfold Process.destroy
  cases there : p.holders name with
  | none => exact ⟨ordered, rfl⟩
  | some holder =>
    have own (number : Int) (member : number ∈ holder.closes) (file : Nat) (now : p.table.Holds number file) :
        file ∈ p.files name := by
      have waits (l : EpollListener) (bound polls : Bool) : holder ≠ .listener l bound polls true := by
        rintro rfl
        exact idle l bound polls there
      rcases closes_cases (ordered.formed name holder there) waits member with kept | ⟨rfl, l, bound, failed, rfl⟩
      · exact ordered.own there kept now
      · exact harmless l bound failed there file now
    refine ⟨?_, closes_own own⟩
    exact ordered.release there own (fun after impossible => by cases impossible)
      fun number member => .inl (keeps_closes member)

/-- A listener that did not come to `epoll_create1` closes somebody's number 0. -/
theorem Ordered.destroy_strays (ordered : p.Ordered)
    (idle : ∀ l bound polls, p.holders name ≠ some (.listener l bound polls true))
    (harmful : ¬ p.Harmless (.destroy name)) : (p.destroy name).strays ≠ [] := by
  simp only [Harmless, not_forall] at harmful
  obtain ⟨l, bound, failed, there, file, now, others⟩ := harmful
  have waits : failed = false := by
    cases failed with
    | false => rfl
    | true => exact absurd there (idle l bound false)
  have zero := ((ordered.formed name _ there).1 waits).1 rfl
  have member : (0 : Int) ∈ (Holder.listener l bound false failed).closes := by simp [Holder.closes, zero]
  have stray := closes_other member now others
  simpa [Process.destroy, there] using stray

theorem Ordered.closed (ordered : p.Ordered) (name : Nat) :
    (p.close name).Ordered ∧ (p.close name).strays = p.strays := by
  unfold Process.close
  cases there : p.holders name with
  | none => exact ⟨ordered, rfl⟩
  | some holder =>
    cases holder with
    | listener l bound polls failed => exact ⟨ordered, rfl⟩
    | eventLoop epollFileDescriptor => exact ⟨ordered, rfl⟩
    | connection number closer =>
      cases shut : closer.closed with
      | true => simpa [shut] using ordered
      | false =>
        have keeps : (Holder.connection number closer).keeps = [number] := by simp [Holder.keeps, shut]
        have own (other : Int) (member : other ∈ [number]) (file : Nat) (now : p.table.Holds other file) :
            file ∈ p.files name := ordered.own there (keeps ▸ member) now
        have quiet : (p.closeBy name number).strays = p.strays := closeBy_own (own number (by simp))
        simp only [shut, Bool.not_false, if_true]
        refine ⟨?_, quiet⟩
        refine ordered.release there own ?_ fun other member => .inl (keeps ▸ member)
        intro left same
        cases same
        simp [Holder.keeps, UnixReadWriteCloser.close, shut, Formed]

/-- Where the own epoll instance is open, what `StartListening` closes is the listener's. -/
theorem failedAccept_own {fd : Int} (possible : p.Possible (.failedAccept name fd)) {l : EpollListener}
    {bound polls failed : Bool} (there : p.holders name = some (.listener l bound polls failed))
    (harmless : p.Harmless (.failedAccept name fd)) :
    ∀ number ∈ [fd, l.epollFileDescriptor], ∀ file, p.table.Holds number file → file ∈ p.files name := by
  rcases harmless l bound polls failed there with ⟨instance_, mine, open_⟩ | own
  · obtain ⟨l', _, _, _, there', contract⟩ := possible
    cases there.symm.trans there'
    obtain ⟨socket, mine', registered⟩ := contract ⟨instance_, mine, open_⟩
    intro number member file now
    have either : number = fd ∨ number = l.epollFileDescriptor := by simpa using member
    rcases either with rfl | rfl
    · cases now.symm.trans registered
      exact mine'
    · cases now.symm.trans open_
      exact mine
  · exact own

theorem Ordered.failedAccept (ordered : p.Ordered) {fd : Int} (possible : p.Possible (.failedAccept name fd))
    (harmless : p.Harmless (.failedAccept name fd)) :
    (p.failedAccept name fd).Ordered ∧ (p.failedAccept name fd).strays = p.strays := by
  obtain ⟨l, bound, polls, failed, there, -⟩ := id possible
  have own := failedAccept_own possible there harmless
  unfold Process.failedAccept
  simp only [there]
  refine ⟨ordered.release there own ?_ ?_, closes_own own⟩
  · rintro after same
    cases same
    refine ⟨?_, ?_⟩
    · intro number member
      have still : (bound = true ∧ l.socketFileDescriptor ∉ [fd, l.epollFileDescriptor]) ∧
          number = l.socketFileDescriptor := by simpa [Holder.keeps] using member
      obtain ⟨⟨had, apart⟩, rfl⟩ := still
      exact ⟨by simp [Holder.keeps, had], apart⟩
    · simp [Formed]
  · intro number member
    by_cases closed : number ∈ [fd, l.epollFileDescriptor]
    · exact .inl closed
    · have had : (polls = true ∧ number = l.epollFileDescriptor) ∨
          (bound = true ∧ number = l.socketFileDescriptor) := by simpa [Holder.keeps] using member
      obtain ⟨bound_, rfl⟩ := had.resolve_left fun polled => closed (by simp [polled.2])
      exact .inr ⟨_, rfl, by simpa [Holder.keeps, bound_] using closed⟩

/-- A listener whose own instance is closed closes what has its numbers. -/
theorem failedAccept_strays {fd : Int} (harmful : ¬ p.Harmless (.failedAccept name fd)) :
    (p.failedAccept name fd).strays ≠ [] := by
  simp only [Harmless, not_forall, not_or] at harmful
  obtain ⟨l, bound, polls, failed, there, -, number, member, file, now, others⟩ := harmful
  have stray := closes_other member now others
  simpa [Process.failedAccept, there] using stray

/-! ### Whole runs -/

theorem Ordered.accept (ordered : p.Ordered) {number : Int} (free : Free p.table number) (added : Bool) :
    (Process.accept { p with table := p.table.install number } number p.table.opened added).Ordered ∧
    (Process.accept { p with table := p.table.install number } number p.table.opened added).strays = p.strays := by
  have adopted : Ordered ({ p with table := p.table.install number }.adopt (.connection number {}) [p.table.opened]) :=
    ordered.adopt_one free (by simp [Holder.keeps]) (by simp [Holder.keeps]) trivial
  unfold Process.accept
  cases added with
  | true => exact ⟨adopted, rfl⟩
  | false =>
    refine adopted.destroy ?_ ?_
    · intro l bound polls there
      simp [Process.adopt] at there
    · intro l bound failed there
      simp [Process.adopt] at there

/-- `Connect` opens nothing, or the socket, which it returns with an error or without. -/
theorem connect_cases {answers : UnixConnector.ConnectAnswers}
    (possible : answers.socket = -1 ∨ Free table answers.socket) :
    (∃ error, error.isSuccess = false ∧ UnixConnector.connect table answers = (error, table)) ∨
    Free table answers.socket ∧ ∃ result, (result.isSuccess = true → result.value = answers.socket) ∧
      UnixConnector.connect table answers = (result, table.install answers.socket) := by
  rcases possible with failed | free
  · exact .inl ⟨errnoErrorable answers.socket answers.errno, rfl, by simp [UnixConnector.connect, failed]⟩
  · have socket : answers.socket ≠ -1 := by
      have := free.1
      omega
    refine .inr ⟨free, ?_⟩
    cases ioctl : answers.ioctl with
    | false => exact ⟨errnoErrorable answers.socket answers.errno, fun _ => rfl, by
        simp [UnixConnector.connect, socket, ioctl]⟩
    | true =>
      cases connected : answers.connect with
      | false => exact ⟨errnoErrorable answers.socket answers.errno, fun _ => rfl, by
          simp [UnixConnector.connect, socket, ioctl, connected]⟩
      | true => exact ⟨successErrorable answers.socket, fun _ => rfl, by
          simp [UnixConnector.connect, socket, ioctl, connected]⟩

theorem Ordered.connected (ordered : p.Ordered) {answers : UnixConnector.ConnectAnswers} {added : Bool}
    (possible : p.Possible (.connect answers added)) :
    (p.next (.connect answers added)).Ordered ∧ (p.next (.connect answers added)).strays = p.strays := by
  rcases connect_cases possible with ⟨error, failed, same⟩ | ⟨free, result, value, same⟩
  · simp [next, same, failed, openedBetween]
    exact ordered
  · cases success : result.isSuccess with
    | true =>
      simp only [next, same, success, if_true, value success]
      exact ordered.accept free added
    | false =>
      simp only [next, same, success, openedBetween_install, Bool.false_eq_true, if_false]
      refine ⟨?_, trivial⟩
      refine ordered.leak ((Extends.refl p.table).install free.2) (install_negative ordered.negative free) ?_ ?_
      · simp [install]
      · simpa using ⟨_, install_holds p.table answers.socket⟩

theorem Ordered.step (ordered : p.Ordered) {input : Input} (possible : p.Possible input)
    (harmless : p.Harmless input) : (p.next input).Ordered ∧ (p.next input).strays = p.strays := by
  cases input with
  | listener =>
    refine ⟨?_, rfl⟩
    refine ordered.adopt (Extends.refl p.table) ordered.negative ?_ ?_ ?_ ?_
    · simp
    · simp [Holder.keeps]
    · simp
    · simp [Formed]
  | bind name answers =>
    refine ⟨ordered.bound possible, ?_⟩
    obtain ⟨⟨l, bound, polls, there⟩, -⟩ := possible
    simp [next, Process.bind, there]
  | eventLoop epollCreate =>
    by_cases failed : epollCreate = -1
    · simpa [next, failed] using ordered
    · have free : Free p.table epollCreate := Or.resolve_left possible failed
      simp only [next, failed, if_false]
      exact ⟨ordered.adopt_one free (by simp [Holder.keeps]) (by simp [Holder.keeps]) trivial, rfl⟩
  | accept4 number added => exact ordered.accept possible added
  | failedAccept name fd => exact ordered.failedAccept possible harmless
  | connect answers added => exact ordered.connected possible
  | close name => exact ordered.closed name
  | destroy name => exact ordered.destroy possible.2 harmless
  | opens number =>
    have free : Free p.table number := possible
    have grown : Ordered { p with table := p.table.install number, leaked := p.leaked ++ [] } :=
      ordered.leak ((Extends.refl p.table).install free.2) (install_negative ordered.negative free) (by simp) (by simp)
    rw [List.append_nil] at grown
    exact ⟨grown, rfl⟩
  | closes number => exact ⟨ordered.foreign possible, rfl⟩

theorem destroy_strays (p : Process) (name : Nat) : p.strays <+: (p.destroy name).strays := by
  unfold Process.destroy
  cases p.holders name with
  | none => exact List.prefix_rfl
  | some holder => exact closes_strays name holder.closes p

/-- What was closed wrongly stays so. -/
theorem next_strays (p : Process) (input : Input) : p.strays <+: (p.next input).strays := by
  have accept (table : DescriptorTable) (number : Int) (file : Nat) (added : Bool) :
      p.strays <+: (Process.accept { p with table := table } number file added).strays := by
    unfold Process.accept
    cases added with
    | true => exact List.prefix_rfl
    | false =>
      exact destroy_strays (({ p with table := table } : Process).adopt (.connection number {}) [file]) p.created
  cases input with
  | listener => exact List.prefix_rfl
  | bind name answers =>
    show p.strays <+: (p.bind name answers).strays
    unfold Process.bind
    split <;> exact List.prefix_rfl
  | eventLoop epollCreate =>
    simp only [next]
    split <;> exact List.prefix_rfl
  | accept4 number added => exact accept _ _ _ _
  | failedAccept name fd =>
    show p.strays <+: (p.failedAccept name fd).strays
    unfold Process.failedAccept
    split
    · exact closes_strays name _ p
    all_goals exact List.prefix_rfl
  | connect answers added =>
    simp only [next]
    split
    · exact accept _ _ _ _
    · exact List.prefix_rfl
  | close name =>
    show p.strays <+: (p.close name).strays
    unfold Process.close
    split
    · split
      · exact closeBy_strays _ _ _
      · exact List.prefix_rfl
    all_goals exact List.prefix_rfl
  | destroy name => exact destroy_strays p name
  | opens number => exact List.prefix_rfl
  | closes number => exact List.prefix_rfl

theorem Ordered.start (table : DescriptorTable) (negative : table.files (-1) = none) :
    Ordered { table := table } := by
  refine ⟨⟨?_, ?_, ?_, ?_⟩, negative, ?_, ?_, ?_⟩
  · intro name other file impossible
    cases impossible
  · intro name holder impossible
    cases impossible
  · intro name file impossible
    cases impossible
  · intro file impossible
    cases impossible
  · intro name file impossible
    cases impossible
  · exact fun name _ => ⟨rfl, rfl⟩
  · intro name holder impossible
    cases impossible

theorem meets_next {condition : Process → Input → Prop} {input : Input} {inputs : List Input} :
    Meets Process.step condition p (input :: inputs) ↔
      condition p input ∧ Meets Process.step condition (p.next input) inputs := by
  constructor
  · exact fun meets => ⟨meets.1, meets.2 _ _ rfl⟩
  · exact fun ⟨held, rest⟩ => meets_cons held rfl rest

theorem returns_next {input : Input} {inputs : List Input} {post : Process × List Unit → Prop}
    (rest : Returns (Transition.run Process.step (p.next input) inputs) fun out => post (out.1, () :: out.2)) :
    Returns (Transition.run Process.step p (input :: inputs)) post := by
  rw [Transition.run, Process.step, pure_is_ok, ok_bind]
  exact rest.bind fun out held => (returns_ok _ _).mpr held

theorem run_strays (p : Process) (inputs : List Input) :
    Returns (Transition.run Process.step p inputs) fun out => p.strays <+: out.1.strays := by
  induction inputs generalizing p with
  | nil => exact (returns_ok _ _).mpr List.prefix_rfl
  | cons input inputs ih =>
    refine returns_next ((ih (p.next input)).mono ?_)
    intro out later
    exact (next_strays p input).trans later

theorem harmful_strays (ordered : p.Ordered) {input : Input} (possible : p.Possible input)
    (harmful : ¬ p.Harmless input) : (p.next input).strays ≠ [] := by
  cases input with
  | destroy name => exact ordered.destroy_strays possible.2 harmful
  | failedAccept name fd => exact failedAccept_strays harmful
  | listener | bind _ _ | eventLoop _ | accept4 _ _ | connect _ _ | close _ | opens _ | closes _ =>
    exact absurd trivial harmful

/-- Along a run the accounts are kept until a wrong close, which nothing makes good. -/
theorem Ordered.run (ordered : p.Ordered) (quiet : p.strays = []) {inputs : List Input}
    (possible : Meets Process.step Possible p inputs) :
    Returns (Transition.run Process.step p inputs) fun out =>
      (out.1.strays = [] ↔ Meets Process.step Harmless p inputs) ∧ (out.1.strays = [] → out.1.Accounted) := by
  induction inputs generalizing p with
  | nil => exact (returns_ok _ _).mpr ⟨iff_of_true quiet trivial, fun _ => ordered.toAccounted⟩
  | cons input inputs ih =>
    obtain ⟨first, rest⟩ := meets_next.mp possible
    refine returns_next ?_
    by_cases harmless : p.Harmless input
    · obtain ⟨after, same⟩ := ordered.step first harmless
      refine (ih after (same.trans quiet) rest).mono ?_
      intro out held
      rw [meets_next, and_iff_right harmless]
      exact held
    · have stray := harmful_strays ordered first harmless
      refine (run_strays (p.next input) inputs).mono ?_
      intro out later
      have never : out.1.strays ≠ [] := fun empty => stray (List.prefix_nil.mp (empty ▸ later))
      exact ⟨iff_of_false never fun meets => harmless meets.1, fun empty => absurd empty never⟩

def listening : BindAnswers where
  socket := 3
  ioctl := true
  bind := true
  listen := true
  epollCreate := 4
  epollCtl := true
  errno := 0

/-- An `accept4` fails, an event loop gets the number of the epoll instance, and `accept4`
fails again. -/
def failedListener : List Input :=
  [.listener, .bind 0 listening, .failedAccept 0 3, .eventLoop 4, .failedAccept 0 7]

theorem failedListener_possible : Meets Process.step Possible { table := noFiles } failedListener := by
  refine meets_next.mpr ⟨trivial, ?_⟩
  refine meets_next.mpr ⟨⟨⟨_, _, _, rfl⟩, .inr ⟨by simp [listening], rfl⟩, .inr ⟨by simp [listening], rfl⟩⟩, ?_⟩
  refine meets_next.mpr ⟨⟨_, _, _, _, rfl, fun _ => ⟨0, by decide, rfl⟩⟩, ?_⟩
  refine meets_next.mpr ⟨.inr ⟨by simp, rfl⟩, ?_⟩
  refine meets_next.mpr ⟨⟨_, _, _, _, rfl, ?_⟩, trivial⟩
  rintro ⟨file, mine, now⟩
  have opened : file ∈ [0, 1] := mine
  have either : file = 0 ∨ file = 1 := by simpa using opened
  have third : (2 : Nat) = file := Option.some.inj now
  omega

end ShipNet.Process
