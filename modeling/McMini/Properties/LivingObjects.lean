import McMini.Properties.ObjectClasses

/-!
# Objects of the model and of the target

An address of the target may be used again, for another object of the same class or of another one.
The model has one object for each address. It should stand for the one which lives there.

* **The target.** What the model has for an address is counted among the objects which have lived
  there (`Accounts`). The operations which the runners have reported are on objects which the model
  has (`Orderly`). What the runners do keeps this, as long as what they report is `harmless`.
* **One execution** of a runner keeps the model and the target together (`Tracks.step`), and its
  pending transitions denote what has been reported exactly if the report is harmless
  (`Tracks.upToDate_iff`).
* **Runs.** `mutex_init` reads the object which it replaces, and the callbacks which add objects
  that are initialized statically do not look at objects which are there. So all pending transitions
  of a run denote what has been reported exactly if no mutex is initialized where an object of
  another class was, and no object is initialized statically at an address which the model knew
  (`upToDate_iff_harmless`).
-/

namespace McMini.ReusedAddresses

open Coordinator Foundation

/-! ### The target -/

section World

variable {runners : List RunnerId} {p q : RunnerId} {w w' : World} {contents m : MailboxContents}
  {a b : Addr} {event : World.Event} {events : List World.Event}

theorem World.shownAfter_apply : w.shownAfter contents a =
    ((classAt contents.setsUp a).map (w.lives a, ·)).or (w.shown a) := by
  rw [World.shownAfter]
  rcases contents.setsUp with _ | ⟨b, ty⟩
  · rfl
  · rw [classAt_some]
    dsimp only
    rw [Function.update_apply]
    by_cases hab : b = a
    · rw [if_pos hab, if_pos hab.symm, hab]
      rfl
    · rw [if_neg hab, if_neg (Ne.symm hab)]
      rfl

theorem bounded_shownAfter (h : ∀ x, w.shown a = some x → x.1 ≤ w.lives a) :
    ∀ x, w.shownAfter contents a = some x → x.1 ≤ w.lives a := by
  intro x hx
  rw [World.shownAfter_apply] at hx
  obtain hx | ⟨-, hx⟩ := Option.or_eq_some_iff.mp hx
  · obtain ⟨ty, -, rfl⟩ := Option.map_eq_some_iff.mp hx
    exact le_rfl
  · exact h x hx

theorem World.see_shown : (w.see contents).shown a =
    (w.shown a).or ((classAt contents.adds a).map (w.lives a, ·)) := by
  rw [World.see]
  rcases contents.adds with _ | ⟨b, ty⟩
  · exact Option.or_none.symm
  · rw [classAt_some]
    dsimp only
    by_cases hab : b = a
    · subst hab
      rw [if_pos rfl]
      rcases hb : w.shown b with _ | x
      · rw [if_pos rfl]
        exact Function.update_self _ _ _
      · rw [if_neg (Option.some_ne_none _), Option.some_or]
        exact hb
    · rw [if_neg hab, Option.map_none, Option.or_none]
      split_ifs
      · exact Function.update_of_ne (Ne.symm hab) _ _
      · rfl

theorem World.see_eq : w.see contents = { w with shown := (w.see contents).shown } := by
  rw [World.see]
  rcases contents.adds with _ | ⟨b, ty⟩
  · rfl
  · dsimp only
    split_ifs <;> rfl

/-- What a runner does between its operations. -/
theorem World.live_eq_some (h : w.live runners event = some w') :
    (∃ a, event = .ends a ∧ w.free runners a = true ∧
      w' = { w with living := Function.update w.living a none }) ∨
    ∃ a ty, event = .begins a ty ∧ w.living a = none ∧ w.free runners a = true ∧
      w' = { w with
        living := Function.update w.living a (some ⟨ty, .static (w.shown a).isSome⟩)
        lives := Function.update w.lives a (w.lives a + 1) } := by
  cases event with
  | ends a =>
    rw [World.live] at h
    split_ifs at h with hends
    exact .inl ⟨a, rfl, hends.2, (Option.some.inj h).symm⟩
  | begins a ty =>
    rw [World.live] at h
    split_ifs at h with hbegins
    exact .inr ⟨a, ty, rfl, hbegins.1, hbegins.2.1, (Option.some.inj h).symm⟩

/-- What the process does when it executes the operation which has been reported. -/
theorem World.perform_eq_some (h : w.perform runners p = some w') :
    w.reported p = none ∧ w' = w ∨
    ∃ contents, w.reported p = some contents ∧
      World.mayPerform runners { w with reported := Function.update w.reported p none } contents =
        true ∧
      w' = { w with
        reported := Function.update w.reported p none
        living := w.livingAfter contents
        shown := w.shownAfter contents } := by
  rw [World.perform] at h
  rcases hreported : w.reported p with _ | contents
  · rw [hreported] at h
    exact .inl ⟨rfl, (Option.some.inj h).symm⟩
  · rw [hreported] at h
    dsimp only at h
    split_ifs at h with hmay
    exact .inr ⟨contents, rfl, hmay, (Option.some.inj h).symm⟩

/-- The operation is the one which the runner has reported. -/
def World.withReport (w : World) (p : RunnerId) (contents : MailboxContents) : World :=
  { w with reported := Function.update w.reported p (some contents) }

/-- The runner has called the `init` function of an object. -/
def World.begin (w : World) (p : RunnerId) (a : Addr) (ty : ObjectType) : World :=
  { w with
    living := Function.update w.living a (some ⟨ty, .initializing p⟩)
    lives := Function.update w.lives a (w.lives a + 1) }

/-- What the report of an operation says of the target. -/
theorem World.report_eq_some (h : w.report runners p contents = some w') :
    (∃ a ty, contents.initializes = some (a, ty) ∧ w.living a = none ∧ w.free runners a = true ∧
      w' = ((w.begin p a ty).see contents).withReport p contents) ∨
    contents.initializes = none ∧ w.uses contents = true ∧
      w' = (w.see contents).withReport p contents := by
  have hreported : ∀ {w : World}, (w.see contents).reported = w.reported := by
    intro w
    rw [World.see_eq]
  rw [World.report] at h
  rcases hinit : contents.initializes with _ | ⟨a, ty⟩
  · rw [hinit] at h
    dsimp only at h
    split_ifs at h with huses
    refine .inr ⟨rfl, huses, ?_⟩
    rw [World.withReport, hreported]
    exact (Option.some.inj h).symm
  · rw [hinit] at h
    dsimp only at h
    split_ifs at h with hnew
    refine .inl ⟨a, ty, rfl, hnew.1, hnew.2, ?_⟩
    rw [World.withReport, hreported]
    exact (Option.some.inj h).symm

theorem mem_operands_of_initializes {x : Addr × ObjectType} (hx : contents.initializes = some x) :
    x ∈ contents.operands := by
  cases contents with
  | mutexInit a | condInit a | semInit a n =>
    obtain rfl := Option.some.inj hx
    exact List.mem_singleton.mpr rfl
  | _ => cases hx

/-! ### What the model has for the objects -/

/-- The object which lives at the address is the one for which the model has been set up, unless
the model has not met it yet, or its memory was initialized statically at an address which the
model knew. -/
structure Accounts (w : World) (a : Addr) : Prop where
  bounded : ∀ x, w.shown a = some x → x.1 ≤ w.lives a
  initialized : ∀ ty, w.living a = some ⟨ty, .initialized⟩ → w.shown a = some (w.lives a, ty)
  static : ∀ ty, w.living a = some ⟨ty, .static false⟩ →
    w.shown a = none ∨ w.shown a = some (w.lives a, ty)
  reused : ∀ ty, w.living a = some ⟨ty, .static true⟩ → ∃ x, w.shown a = some x ∧ x.1 < w.lives a

/-- The model has what the operation of the runner uses. Where a mutex is being initialized it has
a mutex. -/
structure Uses (w : World) (p : RunnerId) (contents : MailboxContents) : Prop where
  operands : contents.initializes = none → ∀ x ∈ contents.operands,
    w.shown x.1 = some (w.lives x.1, x.2) ∧
      ∃ life, w.living x.1 = some life ∧ life.origin.isComplete = true
  initializes : ∀ x, contents.initializes = some x → w.living x.1 = some ⟨x.2, .initializing p⟩ ∧
    (x.2 = .mutex → (w.shown x.1).map Prod.snd = some .mutex)
  creates : ∀ a, contents = .threadCreate a → w.living a = none

/-- What the runners have reported is on objects which the model has. -/
structure Orderly (w : World) : Prop where
  accounts : ∀ a, Accounts w a
  reported : ∀ p contents, w.reported p = some contents → Uses w p contents

theorem Accounts.congr (h : Accounts w a) (hliving : w'.living a = w.living a)
    (hlives : w'.lives a = w.lives a) (hshown : w'.shown a = w.shown a) : Accounts w' a := by
  refine ⟨?_, ?_, ?_, ?_⟩
  · rw [hshown, hlives]
    exact h.bounded
  · rw [hliving, hshown, hlives]
    exact h.initialized
  · rw [hliving, hshown, hlives]
    exact h.static
  · rw [hliving, hshown, hlives]
    exact h.reused

theorem accounts_of_none (hnone : w.living a = none)
    (hbounded : ∀ x, w.shown a = some x → x.1 ≤ w.lives a) : Accounts w a := by
  refine ⟨hbounded, fun ty hty => ?_, fun ty hty => ?_, fun ty hty => ?_⟩
  · cases hnone.symm.trans hty
  · cases hnone.symm.trans hty
  · cases hnone.symm.trans hty

theorem accounts_of_living {life : Life} (hlife : w.living a = some life)
    (hbounded : ∀ x, w.shown a = some x → x.1 ≤ w.lives a)
    (hinitialized : life.origin = .initialized → w.shown a = some (w.lives a, life.objectType))
    (hstatic : life.origin = .static false → w.shown a = none)
    (hreused : life.origin = .static true → ∃ x, w.shown a = some x ∧ x.1 < w.lives a) :
    Accounts w a := by
  refine ⟨hbounded, fun ty hty => ?_, fun ty hty => .inl ?_, fun ty hty => ?_⟩
  · obtain rfl := Option.some.inj (hlife.symm.trans hty)
    exact hinitialized rfl
  · obtain rfl := Option.some.inj (hlife.symm.trans hty)
    exact hstatic rfl
  · obtain rfl := Option.some.inj (hlife.symm.trans hty)
    exact hreused rfl

theorem Uses.congr (h : Uses w p m)
    (hsame : ∀ x ∈ m.operands, w'.living x.1 = w.living x.1 ∧ w'.lives x.1 = w.lives x.1 ∧
      w'.shown x.1 = w.shown x.1)
    (hcreates : ∀ a, m = .threadCreate a → w'.living a = none) : Uses w' p m := by
  refine ⟨fun hinit x hx => ?_, fun x hx => ?_, hcreates⟩
  · obtain ⟨hliving, hlives, hshown⟩ := hsame x hx
    rw [hliving, hlives, hshown]
    exact h.operands hinit x hx
  · obtain ⟨hliving, -, hshown⟩ := hsame x (mem_operands_of_initializes hx)
    rw [hliving, hshown]
    exact h.initializes x hx

/-- An object which is used lives, or is being initialized by the runner. -/
theorem Uses.operand {x : Addr × ObjectType} (h : Uses w p m) (hx : x ∈ m.operands) :
    (w.shown x.1 = some (w.lives x.1, x.2) ∧
      ∃ life, w.living x.1 = some life ∧ life.origin.isComplete = true) ∨
      w.living x.1 = some ⟨x.2, .initializing p⟩ := by
  rcases hinit : m.initializes with _ | y
  · exact .inl (h.operands hinit x hx)
  · obtain rfl : x = y := by
      cases m with
      | mutexInit a | condInit a | semInit a n =>
        rw [List.mem_singleton.mp hx, ← Option.some.inj hinit]
      | _ => cases hinit
    exact .inr (h.initializes x hinit).1

/-- A change at one address which no reported operation has to do with. -/
theorem Orderly.change (h : Orderly w)
    (hreported : ∀ q m, w'.reported q = some m → w.reported q = some m)
    (helse : ∀ b, b ≠ a → w'.living b = w.living b ∧ w'.lives b = w.lives b ∧
      w'.shown b = w.shown b)
    (hoperands : ∀ q m, w'.reported q = some m → ∀ x ∈ m.operands, x.1 ≠ a)
    (hcreates : ∀ q, w'.reported q = some (.threadCreate a) → w'.living a = none)
    (haccounts : Accounts w' a) : Orderly w' := by
  refine ⟨fun b => ?_, fun q m hm => ?_⟩
  · by_cases hb : b = a
    · exact hb ▸ haccounts
    · obtain ⟨hliving, hlives, hshown⟩ := helse b hb
      exact (h.accounts b).congr hliving hlives hshown
  · have huses := h.reported q m (hreported q m hm)
    refine huses.congr (fun x hx => helse x.1 (hoperands q m hm x hx)) fun b hb => ?_
    by_cases heq : b = a
    · subst heq
      exact hcreates q (hb ▸ hm)
    · rw [(helse b heq).1]
      exact huses.creates b hb

theorem free_iff (hrunners : ∀ q m, w.reported q = some m → q ∈ runners) :
    w.free runners a = true ↔ ∀ q m, w.reported q = some m → m.concerns a = false := by
  rw [World.free, List.all_eq_true]
  constructor
  · intro h q m hm
    have hq := h q (hrunners q m hm)
    rw [hm] at hq
    simpa using hq
  · intro h q _
    rcases hm : w.reported q with _ | m
    · rfl
    · rw [Option.any_some, h q m hm]
      rfl

theorem operands_of_not_concerns (h : m.concerns a = false) :
    (∀ x ∈ m.operands, x.1 ≠ a) ∧ m ≠ .threadCreate a := by
  have hnot := fun hconcerns => Bool.eq_false_iff.mp h (concerns_iff.mpr hconcerns)
  exact ⟨fun x hx heq => hnot (.inl ⟨x.2, heq ▸ hx⟩), fun heq => hnot (.inr heq)⟩

/-- What a runner does between its operations concerns objects which no operation is about to
use. -/
theorem Orderly.live (h : Orderly w) (hrunners : ∀ q m, w.reported q = some m → q ∈ runners)
    (hlive : w.live runners event = some w') : Orderly w' := by
  obtain ⟨a, -, hfree, rfl⟩ | ⟨a, ty, -, hnone, hfree, rfl⟩ := World.live_eq_some hlive
  · have hnot := fun q m hm => operands_of_not_concerns ((free_iff hrunners).mp hfree q m hm)
    exact h.change (fun q m => id) (fun b hb => ⟨Function.update_of_ne hb _ _, rfl, rfl⟩)
      (fun q m hm => (hnot q m hm).1) (fun q hq => absurd rfl (hnot q _ hq).2)
      (accounts_of_none (Function.update_self _ _ _) (h.accounts a).bounded)
  · have hnot := fun q m hm => operands_of_not_concerns ((free_iff hrunners).mp hfree q m hm)
    refine h.change (fun q m => id)
      (fun b hb => ⟨Function.update_of_ne hb _ _, Function.update_of_ne hb _ _, rfl⟩)
      (fun q m hm => (hnot q m hm).1) (fun q hq => absurd rfl (hnot q _ hq).2)
      (accounts_of_living (Function.update_self _ _ _) (fun x hx => ?_) nofun (fun hstatic => ?_)
        fun hreused => ?_)
    · show x.1 ≤ Function.update w.lives a (w.lives a + 1) a
      rw [Function.update_self]
      exact ((h.accounts a).bounded x hx).trans (Nat.le_succ _)
    · rw [Origin.static.injEq, Option.isSome_eq_false_iff, Option.isNone_iff_eq_none] at hstatic
      exact hstatic
    · obtain ⟨x, hx⟩ := Option.isSome_iff_exists.mp (Origin.static.inj hreused)
      refine ⟨x, hx, ?_⟩
      show x.1 < Function.update w.lives a (w.lives a + 1) a
      rw [Function.update_self]
      exact Nat.lt_succ_of_le ((h.accounts a).bounded x hx)

/-- When the process executes an operation, the others' objects stay. -/
theorem Orderly.perform (h : Orderly w) (hrunners : ∀ q m, w.reported q = some m → q ∈ runners)
    (hperform : w.perform runners p = some w') : Orderly w' := by
  obtain ⟨-, rfl⟩ | ⟨contents, hcontents, hmay, rfl⟩ := World.perform_eq_some hperform
  · exact h
  have huses := h.reported p contents hcontents
  -- the runner reports nothing any more, the others what they did
  have hothers : ∀ q m, Function.update w.reported p none q = some m →
      p ≠ q ∧ w.reported q = some m := by
    intro q m hm
    rw [Function.update_apply] at hm
    split_ifs at hm with hq
    exact ⟨Ne.symm hq, hm⟩
  have hbounded : ∀ a x, w.shownAfter contents a = some x → x.1 ≤ w.lives a :=
    fun a => bounded_shownAfter (h.accounts a).bounded
  cases contents with
  | mutexInit a | condInit a | semInit a n =>
    obtain ⟨hliving, -⟩ := huses.initializes _ rfl
    refine h.change (a := a) (fun q m hm => (hothers q m hm).2)
      (fun b hb => ⟨Function.update_of_ne hb _ _, rfl, Function.update_of_ne hb _ _⟩)
      (fun q m hm x hx heq => ?_) (fun q hq => ?_)
      (accounts_of_living (Function.update_self _ _ _) (hbounded a)
        (fun _ => Function.update_self _ _ _) nofun nofun)
    -- nobody else uses an object which is being initialized
    · obtain ⟨hpq, hm⟩ := hothers q m hm
      obtain ⟨-, life, hlife, hcomplete⟩ | hlife := (h.reported q m hm).operand hx
      · rw [heq, hliving] at hlife
        rw [← Option.some.inj hlife] at hcomplete
        cases hcomplete
      · rw [heq, hliving, Option.some.injEq, Life.mk.injEq] at hlife
        exact hpq (Origin.initializing.inj hlife.2)
    · have hnone := (h.reported q _ (hothers q _ hq).2).creates a rfl
      rw [hliving] at hnone
      cases hnone
  | threadCreate a =>
    have hnone := huses.creates a rfl
    refine h.change (a := a) (fun q m hm => (hothers q m hm).2)
      (fun b hb => ⟨rfl, rfl, Function.update_of_ne hb _ _⟩) (fun q m hm x hx heq => ?_)
      (fun q _ => hnone) (accounts_of_none hnone (hbounded a))
    obtain ⟨-, life, hlife, -⟩ | hlife := (h.reported q m (hothers q m hm).2).operand hx
    · rw [heq, hnone] at hlife
      cases hlife
    · rw [heq, hnone] at hlife
      cases hlife
  | condDestroy a =>
    -- an object is destroyed when no report of another runner concerns it
    have hnot := fun q m hm => operands_of_not_concerns
      ((free_iff fun q m hm => hrunners q m (hothers q m hm).2).mp hmay q m hm)
    exact h.change (a := a) (fun q m hm => (hothers q m hm).2)
      (fun b hb => ⟨Function.update_of_ne hb _ _, rfl, rfl⟩) (fun q m hm => (hnot q m hm).1)
      (fun q hq => absurd rfl (hnot q _ hq).2)
      (accounts_of_none (Function.update_self _ _ _) (h.accounts a).bounded)
  | _ =>
    exact ⟨fun b => (h.accounts b).congr rfl rfl rfl, fun q m hm =>
      (h.reported q m (hothers q m hm).2).congr (fun _ _ => ⟨rfl, rfl, rfl⟩)
        (h.reported q m (hothers q m hm).2).creates⟩

theorem foldlM_live (h : events.foldlM (fun w event => w.live runners event) w = some w') :
    w'.reported = w.reported ∧ w'.shown = w.shown ∧
      ((∀ q m, w.reported q = some m → q ∈ runners) → Orderly w → Orderly w') := by
  induction events generalizing w with
  | nil =>
    obtain rfl : w = w' := Option.some.inj h
    exact ⟨rfl, rfl, fun _ => id⟩
  | cons event events ih =>
    rw [List.foldlM_cons] at h
    obtain ⟨w₁, hlive, hrest⟩ := Option.bind_eq_some_iff.mp h
    obtain ⟨hreported, hshown, horderly⟩ := ih hrest
    have hsame : w₁.reported = w.reported ∧ w₁.shown = w.shown := by
      obtain ⟨a, -, -, rfl⟩ | ⟨a, ty, -, -, -, rfl⟩ := World.live_eq_some hlive
      · exact ⟨rfl, rfl⟩
      · exact ⟨rfl, rfl⟩
    refine ⟨hreported.trans hsame.1, hshown.trans hsame.2, fun hrunners ho => ?_⟩
    exact horderly (by rwa [hsame.1]) (ho.live hrunners hlive)

/-- What the target has reported, and what the model has been told, when the runner goes on. -/
theorem World.goOn_spec (h : w.goOn runners p events = some w') :
    w'.reported = Function.update w.reported p none ∧
      ∀ a, (w'.shown a).map Prod.snd =
        (classAt ((w.reported p).bind MailboxContents.setsUp) a).or ((w.shown a).map Prod.snd) := by
  obtain ⟨w₁, hperform, hfold⟩ := Option.bind_eq_some_iff.mp h
  obtain ⟨hreported, hshown, -⟩ := foldlM_live hfold
  rw [hreported, hshown]
  obtain ⟨hnone, rfl⟩ | ⟨contents, hcontents, -, rfl⟩ := World.perform_eq_some hperform
  · rw [hnone]
    exact ⟨(Function.update_eq_self_iff.mpr hnone.symm).symm, fun a => rfl⟩
  · refine ⟨rfl, fun a => ?_⟩
    show (w.shownAfter contents a).map Prod.snd = _
    rw [hcontents, Option.bind_some, World.shownAfter_apply]
    rcases classAt contents.setsUp a with _ | ty
    · rfl
    · rfl

theorem Orderly.goOn (h : Orderly w) (hrunners : ∀ q m, w.reported q = some m → q ∈ runners)
    (hgoOn : w.goOn runners p events = some w') : Orderly w' := by
  obtain ⟨w₁, hperform, hfold⟩ := Option.bind_eq_some_iff.mp hgoOn
  obtain ⟨-, -, horderly⟩ := foldlM_live hfold
  refine horderly (fun q m hm => ?_) (h.perform hrunners hperform)
  obtain ⟨-, rfl⟩ | ⟨contents, -, -, rfl⟩ := World.perform_eq_some hperform
  · exact hrunners q m hm
  · change Function.update w.reported p none q = some m at hm
    rw [Function.update_apply] at hm
    split_ifs at hm
    exact hrunners q m hm

/-- `mutex_init` is not called where the model has an object of another class, and no operation is
called on an object whose memory was initialized statically at an address which the model knew. -/
def World.harmless (w : World) (contents : MailboxContents) : Bool :=
  match contents with
  | .mutexInit a => (w.shown a).all fun x => x.2 = .mutex
  | contents => contents.operands.all fun x =>
      (w.living x.1).all fun life => life.origin ≠ .static true

theorem mutexInit_of_initializes (h : contents.initializes = some (a, .mutex)) :
    contents = .mutexInit a := by
  cases contents with
  | mutexInit b =>
    obtain ⟨rfl, -⟩ := Prod.mk.inj (Option.some.inj h)
    rfl
  | condInit b | semInit b n => cases (Prod.mk.inj (Option.some.inj h)).2
  | _ => cases h

theorem harmless_eq (h : ∀ a, contents ≠ .mutexInit a) : w.harmless contents =
    contents.operands.all fun x => (w.living x.1).all fun life => life.origin ≠ .static true := by
  cases contents with
  | mutexInit a => exact absurd rfl (h a)
  | _ => rfl

theorem harmless_of_ne_mutex {ty : ObjectType} (hinit : contents.initializes = some (a, ty))
    (hty : ty ≠ .mutex) : w.harmless contents =
      contents.operands.all fun x => (w.living x.1).all fun life => life.origin ≠ .static true := by
  refine harmless_eq fun b heq => ?_
  rw [heq] at hinit
  exact hty (Prod.mk.inj (Option.some.inj hinit)).2.symm

theorem harmless_iff (hinit : contents.initializes = none) : w.harmless contents = true ↔
    ∀ x ∈ contents.operands, ∀ life, w.living x.1 = some life → life.origin ≠ .static true := by
  have hne : ∀ a, contents ≠ .mutexInit a := by
    rintro a rfl
    cases hinit
  rw [harmless_eq hne, List.all_eq_true]
  refine forall₂_congr fun x _ => ?_
  rw [Option.all_eq_true]
  simp only [decide_eq_true_eq]

theorem adds_of_initializes {x : Addr × ObjectType} (h : contents.initializes = some x) :
    contents.adds = some x := by
  cases contents with
  | mutexInit a | condInit a | semInit a n => exact h
  | _ => cases h

theorem uses_of_adds {x : Addr × ObjectType} (hinit : contents.initializes = none)
    (h : contents.adds = some x) : x ∈ contents.operands ∨ contents = .threadCreate x.1 := by
  cases contents with
  | mutexInit a | condInit a | semInit a n => cases hinit
  | mutexLock a isStatic | condSignal a isStatic | condBroadcast a isStatic
  | condEnqueue a m isStatic =>
    obtain rfl := Option.some.inj h
    exact .inl (List.mem_cons_self ..)
  | threadCreate a =>
    obtain rfl := Option.some.inj h
    exact .inr rfl
  | _ => cases h

theorem World.uses_iff : w.uses contents = true ↔
    (∀ x ∈ contents.operands, ∃ life, w.living x.1 = some life ∧ life.objectType = x.2 ∧
      life.origin.isComplete = true) ∧ ∀ a, contents = .threadCreate a → w.living a = none := by
  unfold World.uses
  rw [Bool.and_eq_true, List.all_eq_true]
  refine and_congr (forall₂_congr fun x _ => ?_) ?_
  · rw [Option.any_eq_true]
    simp only [Bool.and_eq_true, decide_eq_true_eq]
  · cases contents with
    | threadCreate a =>
      constructor
      · rintro hnone b heq
        rw [← MailboxContents.threadCreate.inj heq]
        exact Option.isNone_iff_eq_none.mp hnone
      · intro h
        exact Option.isNone_iff_eq_none.mpr (h a rfl)
    | _ => exact iff_of_true rfl nofun

/-- The model meets the object which an operation uses. -/
theorem Orderly.see (h : Orderly w) (hinit : contents.initializes = none)
    (huses : w.uses contents = true) : Orderly (w.see contents) := by
  obtain ⟨hoperands, hcreates⟩ := World.uses_iff.mp huses
  have hsee : (∀ b, (w.see contents).shown b = w.shown b) → Orderly (w.see contents) := by
    intro hsame
    have heq : w.see contents = w := by
      rw [World.see_eq, funext hsame]
    rwa [heq]
  rcases hadds : contents.adds with _ | ⟨a, ty⟩
  · refine hsee fun b => ?_
    rw [World.see_shown, hadds]
    exact Option.or_none
  rcases hnone : w.shown a with _ | y
  · -- the others use no object which the model has not met
    have hliving : ∀ life, w.living a = some life →
        life.objectType = ty ∧ life.origin.isComplete = true := by
      intro life hlife
      obtain hmem | hcreate := uses_of_adds hinit hadds
      · obtain ⟨life', hlife', htype, hcomplete⟩ := hoperands _ hmem
        obtain rfl := Option.some.inj (hlife.symm.trans hlife')
        exact ⟨htype, hcomplete⟩
      · rw [hcreates a hcreate] at hlife
        cases hlife
    have hshown : (w.see contents).shown a = some (w.lives a, ty) := by
      rw [World.see_shown, hadds, hnone, classAt_some, if_pos rfl]
      rfl
    rw [World.see_eq] at hshown ⊢
    refine h.change (a := a) (fun q m => id) (fun b hb => ⟨rfl, rfl, ?_⟩)
      (fun q m hm x hx heq => ?_) (fun q hq => (h.reported q _ hq).creates a rfl)
      ⟨fun x hx => ?_, fun ty' hty => ?_, fun ty' hty => .inr ?_, fun ty' hty => ?_⟩
    · show (w.see contents).shown b = w.shown b
      rw [World.see_shown, hadds, classAt_some, if_neg (Ne.symm hb)]
      exact Option.or_none
    · obtain ⟨hsome, -⟩ | hlife := (h.reported q m hm).operand hx
      · rw [heq, hnone] at hsome
        cases hsome
      · rw [heq] at hlife
        obtain ⟨-, hcomplete⟩ := hliving _ hlife
        cases hcomplete
    · rw [← Option.some.inj (hshown.symm.trans hx)]
    · cases hnone.symm.trans ((h.accounts a).initialized ty' hty)
    · have htype : ty' = ty := (hliving _ hty).1
      rw [htype]
      exact hshown
    · obtain ⟨x, hx, -⟩ := (h.accounts a).reused ty' hty
      cases hnone.symm.trans hx
  · refine hsee fun b => ?_
    rw [World.see_shown, hadds, classAt_some]
    by_cases hab : a = b
    · rw [← hab, hnone, Option.some_or]
    · rw [if_neg hab]
      exact Option.or_none

/-- The runner begins to initialize an object. -/
theorem Orderly.begin {ty : ObjectType} (h : Orderly w)
    (hrunners : ∀ q m, w.reported q = some m → q ∈ runners) (hfree : w.free runners a = true)
    (hadds : contents.adds = some (a, ty)) :
    Orderly ((w.begin p a ty).see contents) := by
  have hnot := fun q m hm => operands_of_not_concerns ((free_iff hrunners).mp hfree q m hm)
  rw [World.see_eq]
  refine h.change (a := a) (fun q m => id)
    (fun b hb => ⟨Function.update_of_ne hb _ _, Function.update_of_ne hb _ _, ?_⟩)
    (fun q m hm => (hnot q m hm).1) (fun q hq => absurd rfl (hnot q _ hq).2)
    (accounts_of_living (Function.update_self _ _ _) (fun x hx => ?_) nofun nofun nofun)
  · refine World.see_shown.trans ?_
    rw [hadds, classAt_some, if_neg (Ne.symm hb)]
    exact Option.or_none
  · show x.1 ≤ Function.update w.lives a (w.lives a + 1) a
    rw [Function.update_self]
    obtain hx | ⟨-, hx⟩ := Option.or_eq_some_iff.mp (World.see_shown.symm.trans hx)
    · exact ((h.accounts a).bounded x hx).trans (Nat.le_succ _)
    · obtain ⟨ty', -, rfl⟩ := Option.map_eq_some_iff.mp hx
      exact (Function.update_self _ _ _).le

/-- The runner reports an operation on objects which the model has. -/
theorem Orderly.withReport (h : Orderly w) (huses : Uses w p contents) :
    Orderly (w.withReport p contents) := by
  refine ⟨fun a => (h.accounts a).congr rfl rfl rfl, fun q m hm => ?_⟩
  have hsame : ∀ {q m}, Uses w q m →
      Uses (w.withReport p contents) q m :=
    fun huses => huses.congr (fun _ _ => ⟨rfl, rfl, rfl⟩) huses.creates
  change Function.update w.reported p (some contents) q = some m at hm
  rw [Function.update_apply] at hm
  split_ifs at hm with hq
  · obtain rfl := Option.some.inj hm
    exact hsame (hq ▸ huses)
  · exact hsame (h.reported q m hm)

/-- **A report** which is harmless, when the callback has found what it needs. -/
theorem Orderly.report (h : Orderly w) (hrunners : ∀ q m, w.reported q = some m → q ∈ runners)
    (hharmless : w.harmless contents = true) (hreport : w.report runners p contents = some w')
    (hknown : ∀ a, contents.concerns a = true → (w'.shown a).isSome = true) : Orderly w' := by
  obtain ⟨a, ty, hinit, hnone, hfree, rfl⟩ | ⟨hinit, huses, rfl⟩ := World.report_eq_some hreport
  · refine (h.begin hrunners hfree (adds_of_initializes hinit)).withReport ⟨fun hnot => ?_,
      fun x hx => ?_, fun b hb => ?_⟩
    · cases hinit.symm.trans hnot
    · obtain rfl := Option.some.inj (hinit.symm.trans hx)
      refine ⟨?_, fun hmutex => ?_⟩
      · rw [World.see_eq]
        exact Function.update_self _ _ _
      -- an initialized mutex is harmless at the address of a mutex only
      · have hall : (w.shown a).all (fun y => y.2 = .mutex) = true := by
          obtain rfl : contents = .mutexInit a := mutexInit_of_initializes (hmutex ▸ hinit)
          exact hharmless
        have hshown : ((w.begin p a ty).see contents).shown a =
            (w.shown a).or (some ((w.begin p a ty).lives a, ty)) := by
          rw [World.see_shown, adds_of_initializes hinit, classAt_some, if_pos rfl]
          rfl
        show (((w.begin p a ty).see contents).shown a).map Prod.snd = _
        rw [hshown]
        rcases hold : w.shown a with _ | y
        · exact congrArg some hmutex
        · exact congrArg some (of_decide_eq_true ((Option.all_eq_true _ _).mp hall y hold))
    · rw [hb] at hinit
      cases hinit
  · have hsee := h.see hinit huses
    obtain ⟨hoperands, hcreates⟩ := World.uses_iff.mp huses
    refine hsee.withReport ⟨fun _ x hx => ?_, fun x hx => ?_, fun a ha => ?_⟩
    -- the object has been completed; how decides what the model has for it
    · obtain ⟨life, hlife, htype, hcomplete⟩ := hoperands x hx
      have hliving : (w.see contents).living x.1 = some life := by
        rw [World.see_eq]
        exact hlife
      refine ⟨?_, life, hliving, hcomplete⟩
      have hsome := hknown x.1 (concerns_iff.mpr (.inl ⟨x.2, hx⟩))
      have haccounts := hsee.accounts x.1
      obtain ⟨ty, origin⟩ := life
      rw [← htype]
      cases origin with
      | initializing q => cases hcomplete
      | initialized => exact haccounts.initialized ty hliving
      | static reused =>
        cases reused with
        | false =>
          obtain hnone | hshown := haccounts.static ty hliving
          · change ((w.see contents).shown x.1).isSome = true at hsome
            rw [hnone] at hsome
            cases hsome
          · exact hshown
        | true => exact absurd rfl ((harmless_iff hinit).mp hharmless x hx _ hlife)
    · cases hinit.symm.trans hx
    · rw [World.see_eq]
      exact hcreates a ha

/-- What a report tells the model. -/
theorem World.report_spec (h : w.report runners p contents = some w') :
    w'.reported = Function.update w.reported p (some contents) ∧
      ∀ a, (w'.shown a).map Prod.snd =
        ((w.shown a).map Prod.snd).or (classAt contents.adds a) := by
  have hshown : ∀ {w₁ : World} {a}, ((w₁.see contents).shown a).map Prod.snd =
      ((w₁.shown a).map Prod.snd).or (classAt contents.adds a) := by
    intro w₁ a
    rw [World.see_shown]
    rcases w₁.shown a with _ | x
    · rcases classAt contents.adds a with _ | ty
      · rfl
      · rfl
    · rfl
  obtain ⟨a, ty, -, -, -, rfl⟩ | ⟨-, -, rfl⟩ := World.report_eq_some h
  · refine ⟨?_, fun b => hshown⟩
    rw [World.see_eq]
    rfl
  · refine ⟨?_, fun b => hshown⟩
    rw [World.see_eq]
    rfl

end World

/-! ### The model and the target -/

section States

variable {s s' : State} {a : Action} {acts : List Action} {p : RunnerId}
  {contents : MailboxContents} {w w' : World} {c₁ : Coordinator} {t next : Transition}
  {op : Operation}

/-- What the target has reported is pending in the model, and the objects of the model have the
classes with which they have been set up. -/
structure Tracks (s : State) : Prop where
  mapped : Mapped s.coordinator
  types : ∀ a, typeAt s.coordinator a = (s.world.shown a).map Prod.snd
  silent : ∀ p t, s.coordinator.currentProgramModel.nextSteps.lookup p = some t →
    s.world.reported p = none → t.op = .threadStart
  describes : ∀ p contents, s.world.reported p = some contents →
    ∃ t, s.coordinator.currentProgramModel.nextSteps.lookup p = some t ∧
      Describes s.coordinator contents t.op

theorem Tracks.mem_runners (h : Tracks s) (hreported : s.world.reported p = some contents) :
    p ∈ s.runners := by
  obtain ⟨t, ht, -⟩ := h.describes p contents hreported
  exact Program.mem_runners.mpr ⟨t, ht⟩

theorem step_eq_some (h : step a s = some s') :
    ∃ w, s.goOn a = some w ∧ w.report s.runners a.runner a.contents = some s'.world ∧
      executeRunner a.runner a.contents s.coordinator = some s'.coordinator := by
  obtain ⟨w, hgoOn, h⟩ := Option.bind_eq_some_iff.mp h
  obtain ⟨w', hreport, h⟩ := Option.bind_eq_some_iff.mp h
  obtain ⟨c, hexecute, h⟩ := Option.bind_eq_some_iff.mp h
  obtain rfl := Option.some.inj h
  exact ⟨w, hgoOn, hreport, hexecute⟩

/-- The transition which the model executes is what the process has executed. -/
theorem Tracks.setsUp (h : Tracks s)
    (hlength : s.coordinator.getStateSequence.visibleObjects.length ≤ objidInvalid)
    (hexecuted : Executed s.coordinator p contents c₁ next t s'.coordinator) :
    setsUp c₁.getStateSequence.toState next.op =
        ((s.world.reported p).bind MailboxContents.setsUp).map
          (fun x => (c₁.getModelOfObject x.1, x.2)) ∧
      ∀ x, (s.world.reported p).bind MailboxContents.setsUp = some x →
        c₁.contains x.1 = true := by
  have hprocess := h.mapped.afterProcess p
  rcases hreported : s.world.reported p with _ | m
  · have hstart : next.op = .threadStart := by
      obtain hbefore | ⟨-, hstart⟩ := pending_of_adds hprocess hexecuted.adds hexecuted.pending
      · exact h.silent p next hbefore hreported
      · exact hstart
    rw [hstart]
    exact ⟨rfl, nofun⟩
  · obtain ⟨t', ht', hdescribes⟩ := h.describes p m hreported
    have hpending := pending_adds hprocess hexecuted.adds ht'
    obtain rfl := Option.some.inj (hpending.symm.trans hexecuted.pending)
    have hafter := hdescribes.keeps hexecuted.keeps h.mapped hlength
    exact ⟨hafter.setsUp, fun x hx => hafter.known x.1 (concerns_of_setsUp hx)⟩

/-- **One execution of a runner** keeps the model and the target together. -/
theorem Tracks.step (h : Tracks s) (hstep : step a s = some s')
    (hlength : s'.coordinator.getStateSequence.visibleObjects.length ≤ objidInvalid) :
    Tracks s' := by
  obtain ⟨w, hgoOn, hreport, hexecute⟩ := step_eq_some hstep
  obtain ⟨c₁, next, t, hexecuted⟩ := executed_of_executeRunner h.mapped.settled hexecute
  have hadded : c₁.getStateSequence.visibleObjects.length ≤ objidInvalid :=
    hexecuted.objects.2.ge.trans hlength
  have hbefore := hexecuted.keeps.objects.length_le.trans hadded
  have hprocess := h.mapped.afterProcess a.runner
  have hmapped : Mapped c₁ := mapped_of_adds hprocess hbefore hexecuted.adds
  -- what was pending sets up what the target has reported, as the model knows the address
  obtain ⟨hsetsUp, hknown⟩ := h.setsUp hbefore hexecuted
  have hexecutes : Executes c₁.getStateSequence next.op s'.coordinator.getStateSequence := by
    refine executes_follow hmapped.settled (fun x hx => ?_) hexecuted.follow
    obtain ⟨y, hy, rfl⟩ := Option.map_eq_some_iff.mp (hsetsUp.symm.trans hx)
    exact hmapped.lookup_lt y.1 _ (lookup_getModelOfObject (hknown y hy))
  obtain ⟨hreported, hgoneOn⟩ := World.goOn_spec hgoOn
  obtain ⟨hreported', htold⟩ := World.report_spec hreport
  have hothers : ∀ q, q ≠ a.runner → s'.world.reported q = s.world.reported q := by
    intro q hq
    rw [hreported', Function.update_of_ne hq, hreported, Function.update_of_ne hq]
  have hself : s'.world.reported a.runner = some a.contents := by
    rw [hreported', Function.update_self]
  refine ⟨Mapped.executes hmapped hexecuted hexecutes, fun b => ?_, fun q u hu hnone => ?_,
    fun q m hm => ?_⟩
  · rw [typeAt_executes hmapped hexecutes hexecuted.mapping hsetsUp hknown,
      typeAt_callback hprocess hadded hexecuted.translates, htold, hgoneOn, Option.or_assoc,
      ← h.types]
    rfl
  -- the runner which has been executed reports something, so it is another one
  · have hq : q ≠ a.runner := by
      rintro rfl
      cases hself.symm.trans hnone
    rw [hexecuted.nextSteps, lookup_insert, if_neg (Ne.symm hq)] at hu
    obtain hpending | ⟨-, hstart⟩ := pending_of_adds hprocess hexecuted.adds hu
    · exact h.silent q u hpending ((hothers q hq).symm.trans hnone)
    · exact hstart
  · rw [hexecuted.nextSteps]
    by_cases hq : q = a.runner
    · subst hq
      obtain rfl := Option.some.inj (hself.symm.trans hm)
      refine ⟨t, by rw [lookup_insert, if_pos rfl], ?_⟩
      exact (describes_callback hprocess hadded hexecuted.translates).executes hexecutes
        hexecuted.mapping
    · obtain ⟨u, hu, hdescribes⟩ := h.describes q m ((hothers q hq).symm.trans hm)
      refine ⟨u, ?_, ?_⟩
      · rw [lookup_insert, if_neg (Ne.symm hq)]
        exact pending_adds hprocess hexecuted.adds hu
      · exact (hdescribes.keeps hexecuted.keeps h.mapped hbefore).executes hexecutes
          hexecuted.mapping

/-- The transition has the objects of the model which stand for those which the operation has been
called with. Those which it reads are of the classes which it takes them for, and those which the
target uses are the ones which live at their addresses. -/
structure Denotes (s : State) (contents : MailboxContents) (op : Operation) : Prop where
  operands : op.operands =
    contents.operands.map fun x => (s.coordinator.getModelOfObject x.1, x.2)
  reads : ∀ x ∈ op.reads, (s.coordinator.getStateSequence.toState.objectState x.1).map
    VisibleObjectState.objectType = some x.2
  living : contents.initializes = none → ∀ x ∈ contents.operands,
    s.world.shown x.1 = some (s.world.lives x.1, x.2)

/-- All pending transitions denote what the runners have reported. -/
def UpToDate (s : State) : Prop :=
  ∀ p t, s.coordinator.currentProgramModel.nextSteps.lookup p = some t →
    s.world.reported p = none ∧ t.op = .threadStart ∨
      ∃ contents, s.world.reported p = some contents ∧ Denotes s contents t.op

/-- What the runner reports is harmless when it reports it. -/
def HarmlessStep (s : State) (a : Action) : Prop :=
  ∀ w ∈ s.goOn a, w.harmless a.contents = true

instance (s : State) (a : Action) : Decidable (HarmlessStep s a) :=
  inferInstanceAs (Decidable (∀ w ∈ s.goOn a, w.harmless a.contents = true))

theorem operands_of_initializes {x : Addr × ObjectType} (h : contents.initializes = some x) :
    contents.operands = [x] := by
  cases contents with
  | mutexInit a | condInit a | semInit a n =>
    obtain rfl := Option.some.inj h
    rfl
  | _ => cases h

theorem setsUp_of_initializes {x : Addr × ObjectType} (h : contents.initializes = some x) :
    contents.setsUp = some x := by
  cases contents with
  | threadCreate a => cases h
  | _ => exact h

theorem reads_subset {x : ObjId × ObjectType} (hx : x ∈ op.reads) : x ∈ op.operands := by
  cases op with
  | conditionVariableInit c | semInit i n => cases hx
  | _ => exact hx

/-- Of what is set up only a mutex is read. -/
theorem reads_of_setsUp {s : McMini.State} {i : ObjId} {ty : ObjectType}
    (h : setsUp s op = some (i, ty)) :
    (ty = .mutex → op.reads = [(i, .mutex)]) ∧ (ty ≠ .mutex → op.reads = []) := by
  cases op with
  | mutexInit m =>
    obtain ⟨rfl, rfl⟩ := Prod.mk.inj (Option.some.inj h)
    exact ⟨fun _ => rfl, fun hne => absurd rfl hne⟩
  | conditionVariableInit c | semInit i n =>
    obtain ⟨rfl, rfl⟩ := Prod.mk.inj (Option.some.inj h)
    exact ⟨nofun, fun _ => rfl⟩
  | threadCreate target =>
    obtain ⟨j, -, heq⟩ := Option.map_eq_some_iff.mp h
    obtain ⟨-, rfl⟩ := Prod.mk.inj heq
    exact ⟨nofun, fun _ => rfl⟩
  | _ => cases h

/-- The class of an object which the model has at an address. -/
theorem Tracks.objectType (h : Tracks s) {b : Addr} {n : ℕ} {ty : ObjectType}
    (hshown : s.world.shown b = some (n, ty)) :
    (s.coordinator.getStateSequence.toState.objectState
      (s.coordinator.getModelOfObject b)).map VisibleObjectState.objectType = some ty := by
  have htype := h.types b
  rw [hshown, Option.map_some, typeAt] at htype
  obtain ⟨o, ho, htype⟩ := Option.map_eq_some_iff.mp htype
  obtain ⟨i, hi, ho⟩ := Option.bind_eq_some_iff.mp ho
  rw [Coordinator.getModelOfObject, hi, Option.getD_some, ho, Option.map_some, htype]

theorem Tracks.upToDate (h : Tracks s) (horderly : Orderly s.world) : UpToDate s := by
  intro p t ht
  rcases hreported : s.world.reported p with _ | contents
  · exact .inl ⟨rfl, h.silent p t ht hreported⟩
  · obtain ⟨u, hu, hdescribes⟩ := h.describes p contents hreported
    obtain rfl := Option.some.inj (hu.symm.trans ht)
    have huses := horderly.reported p contents hreported
    refine .inr ⟨contents, rfl, hdescribes.operands, fun x hx => ?_,
      fun hinit x hx => (huses.operands hinit x hx).1⟩
    rcases hinit : contents.initializes with _ | ⟨b, ty⟩
    · have hmem := reads_subset hx
      rw [hdescribes.operands] at hmem
      obtain ⟨y, hy, rfl⟩ := List.mem_map.mp hmem
      exact h.objectType (huses.operands hinit y hy).1
    · have hsetsUp := hdescribes.setsUp
      rw [setsUp_of_initializes hinit] at hsetsUp
      obtain ⟨hmutex, hother⟩ := reads_of_setsUp hsetsUp
      by_cases hty : ty = .mutex
      · rw [hmutex hty] at hx
        obtain rfl := List.mem_singleton.mp hx
        have hshown := (huses.initializes _ hinit).2 hty
        obtain ⟨⟨n, ty'⟩, hshown, rfl⟩ := Option.map_eq_some_iff.mp hshown
        exact h.objectType hshown
      · rw [hother hty] at hx
        cases hx

/-- **One execution.** The pending transitions denote what has been reported afterwards exactly if
what is reported is harmless. -/
theorem Tracks.upToDate_iff (h : Tracks s) (horderly : Orderly s.world)
    (hstep : McMini.ReusedAddresses.step a s = some s')
    (hlength : s'.coordinator.getStateSequence.visibleObjects.length ≤ objidInvalid) :
    (UpToDate s' ↔ HarmlessStep s a) ∧ (HarmlessStep s a → Orderly s'.world) := by
  have htracks := h.step hstep hlength
  obtain ⟨w, hgoOn, hreport, -⟩ := step_eq_some hstep
  have hrunners : ∀ q m, w.reported q = some m → q ∈ s.runners := by
    intro q m hm
    rw [(World.goOn_spec hgoOn).1, Function.update_apply] at hm
    split_ifs at hm
    exact h.mem_runners hm
  have hw : Orderly w := horderly.goOn (fun q m => h.mem_runners) hgoOn
  have hself : s'.world.reported a.runner = some a.contents := by
    rw [(World.report_spec hreport).1, Function.update_self]
  obtain ⟨t, ht, hdescribes⟩ := htracks.describes _ _ hself
  have horderly' : HarmlessStep s a → Orderly s'.world := by
    intro hharmless
    refine hw.report hrunners (hharmless w hgoOn) hreport fun b hb => ?_
    have hknown := hdescribes.known b hb
    rcases hshown : s'.world.shown b with _ | x
    · have htype := htracks.types b
      rw [hshown] at htype
      have hunknown := (typeAt_eq_none_iff htracks.mapped hlength).mp htype
      rw [hknown] at hunknown
      cases hunknown
    · rfl
  refine ⟨⟨fun hupToDate => ?_, fun hharmless => htracks.upToDate (horderly' hharmless)⟩,
    horderly'⟩
  -- what has just been reported shows whether it is harmless
  obtain ⟨hnone, -⟩ | ⟨contents, hcontents, hdenotes⟩ := hupToDate _ t ht
  · cases hself.symm.trans hnone
  obtain rfl := Option.some.inj (hself.symm.trans hcontents)
  intro w' hw'
  obtain rfl := Option.some.inj (hgoOn.symm.trans hw')
  obtain ⟨b, ty, hinit, hnone, -, hworld⟩ | ⟨hinit, huses, hworld⟩ :=
    World.report_eq_some hreport
  · have hshown : ∀ y, w.shown b = some y → s'.world.shown b = some y := by
      intro y hy
      rw [hworld]
      refine World.see_shown.trans ?_
      rw [World.begin, hy, Option.some_or]
    by_cases hty : ty = .mutex
    · subst hty
      have hsetsUp := hdescribes.setsUp
      rw [setsUp_of_initializes hinit] at hsetsUp
      have hread := hdenotes.reads _
        (((reads_of_setsUp hsetsUp).1 rfl).symm ▸ List.mem_singleton_self _)
      rw [mutexInit_of_initializes hinit]
      refine (Option.all_eq_true _ _).mpr fun y hy => decide_eq_true ?_
      exact Option.some.inj ((htracks.objectType (hshown y hy)).symm.trans hread)
    · rw [harmless_of_ne_mutex hinit hty, operands_of_initializes hinit, List.all_cons, hnone]
      rfl
  · refine (harmless_iff hinit).mpr fun x hx life hlife hstatic => ?_
    obtain ⟨y, hy, hlt⟩ := (hw.accounts x.1).reused life.objectType (by rw [hlife, ← hstatic])
    have hshown : s'.world.shown x.1 = some y := by
      rw [hworld]
      refine World.see_shown.trans ?_
      rw [hy, Option.some_or]
    have hlives : s'.world.lives x.1 = w.lives x.1 := by
      rw [hworld, World.withReport, World.see_eq]
    have hliving := hdenotes.living hinit x hx
    rw [hshown, hlives] at hliving
    rw [Option.some.inj hliving] at hlt
    exact lt_irrefl _ hlt

theorem objects_step (h : s.coordinator.getStateSequence.Settled) (hstep : step a s = some s') :
    s'.coordinator.getStateSequence.Settled ∧
      s.coordinator.getStateSequence.visibleObjects.length ≤
        s'.coordinator.getStateSequence.visibleObjects.length := by
  obtain ⟨w, -, -, hexecute⟩ := step_eq_some hstep
  obtain ⟨c₁, next, t, hexecuted⟩ := executed_of_executeRunner h hexecute
  obtain ⟨hsettled, hlength⟩ := hexecuted.objects
  exact ⟨hsettled, hexecuted.keeps.objects.length_le.trans hlength.ge⟩

/-- Before McMini executes runners: the model has the objects which live at the addresses, and what
is pending is what has been reported. -/
structure Starts (s : State) : Prop where
  tracks : Tracks s
  orderly : Orderly s.world

/-- **Reused addresses.** In every state of a run the pending transitions denote what the runners
have reported, exactly if all that is reported in the run is harmless. -/
theorem upToDate_iff_harmless {s₀ : State} (hstart : Starts s₀)
    (hrun : runFrom step s₀ acts = some s)
    (hlength : s.coordinator.getStateSequence.visibleObjects.length ≤ objidInvalid) :
    (∀ pre u, pre <+: acts → runFrom step s₀ pre = some u → UpToDate u) ↔
      HoldsAlong step HarmlessStep s₀ acts := by
  refine holdsAlong_iff (I := fun u => Tracks u ∧ Orderly u.world)
    (B := fun u => u.coordinator.getStateSequence.visibleObjects.length ≤ objidInvalid)
    (fun u hu => hu.1.upToDate hu.2) (fun u a u' hu hlength' hstep => ?_)
    ⟨hstart.tracks, hstart.orderly⟩ (fun pre u hpre hu => ?_) hrun
  · obtain ⟨hiff, horderly⟩ := hu.1.upToDate_iff hu.2 hstep hlength'
    exact ⟨hiff, fun hharmless => ⟨hu.1.step hstep hlength', horderly hharmless⟩⟩
  · exact (size_le_last (K := fun u => u.coordinator.getStateSequence.Settled)
      (fun _ _ _ => objects_step) hstart.tracks.mapped.settled hrun hpre hu).trans hlength

/-- A mutex is initialized where a semaphore was. -/
example : ¬ HoldsAlong step HarmlessStep start [⟨ridMainThread, [], .semInit 64 1⟩,
    ⟨ridMainThread, [.ends 64], .mutexInit 64⟩] := by decide

theorem starts_start : Starts start := by
  refine ⟨⟨⟨StateSequence.settled_ofDetachedState _, fun a i hi => ?_, fun a b i hi => ?_,
    fun p t ht => ?_⟩, fun a => ?_, fun p t ht _ => ?_, nofun⟩,
    fun a => accounts_of_none rfl nofun, nofun⟩
  · cases (Finmap.lookup_empty a).symm.trans hi
  · cases (Finmap.lookup_empty a).symm.trans hi
  · obtain ⟨rfl, -⟩ := pending_atMain ht
    exact Nat.zero_lt_one
  · show ((Finmap.lookup a ∅).bind _).map _ = none
    rw [Finmap.lookup_empty]
    rfl
  · obtain ⟨-, rfl⟩ := pending_atMain ht
    rfl

/-- The main thread initializes a mutex, destroys it, and initializes a condition variable at its
address, which it signals. -/
private def reinitializing : List Action :=
  [⟨ridMainThread, [], .mutexInit 64⟩, ⟨ridMainThread, [.ends 64], .condInit 64⟩,
    ⟨ridMainThread, [], .condSignal 64 false⟩]

theorem upToDate_reinitializing : ∃ s, runFrom step start reinitializing = some s ∧
    s.world.shown 64 = some (2, .conditionVariable) ∧ UpToDate s := by
  obtain ⟨s, hs⟩ := Option.isSome_iff_exists.mp (show
    (runFrom step start reinitializing).isSome = true by rfl)
  have hfinal : (runFrom step start reinitializing).map (fun s => (s.world.shown 64,
      s.coordinator.getStateSequence.visibleObjects.length)) =
      some (some (2, .conditionVariable), 2) := by rfl
  rw [hs] at hfinal
  obtain ⟨hshown, hlength⟩ := Prod.mk.inj (Option.some.inj hfinal)
  refine ⟨s, hs, hshown, ?_⟩
  exact (upToDate_iff_harmless starts_start hs (hlength ▸ by decide)).mpr (by decide)
    reinitializing s List.prefix_rfl hs

end States

end McMini.ReusedAddresses
