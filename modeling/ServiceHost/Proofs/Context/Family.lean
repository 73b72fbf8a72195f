import Mathlib.Logic.Relation
import Mathlib.Order.Bounds.Basic
import ServiceHost.Context

/-!
# What a family of contexts means

Contexts are derived from one another, copied, cancelled and outlived by the clock, in any order
(`FamilyMove`). Who was derived from whom is kept beside the contexts (`Member.descent`), and what
should end a context is said in these terms alone: the least of the deadlines that were set on the
way to it (`Family.DeadlineSet`), and the cancellation of anyone on this way or of a copy of such
(`Family.Ended`).

A context itself knows neither. It holds the scopes of its lineage and one deadline, which was
compared with the parent's when it was derived. The two agree since a new scope is nobody else's
(`Family.Sound`), so that the scopes of a lineage are the own scopes of those on the way
(`Family.Sound.mem_lineage_iff`), and an own scope is shared by copies only
(`Family.Sound.own_eq_iff`).
-/

namespace ServiceHost

open Relation

/-- Where a context comes from. The deadline is the one that was set for it, if any, and not one
that it inherits. -/
inductive Descent where
  | root
  | derived (parent : Nat) (deadline : Option Nat)
  | copy (original : Nat)
deriving DecidableEq, Repr

/-- The context that this one was made from. -/
def Descent.origin? : Descent → Option Nat
  | .root => none
  | .derived parent _ => some parent
  | .copy original => some original

structure Member where
  descent : Descent
  context : Context
deriving DecidableEq, Repr

/-- Contexts in the order in which they came about, and those of them that were cancelled. -/
structure Family where
  scopes : Scopes
  now : Nat
  members : List Member
  cancelled : List Nat
deriving DecidableEq, Repr

/-- What may be done to a family. Contexts are known by their places. -/
inductive FamilyMove where
  | background
  | child (parent : Nat)
  | withDeadline (parent deadline : Nat)
  | withTimeout (parent timeout : Nat)
  | clone (original : Nat)
  | cancel (member : Nat)
  | advance (ms : Nat)

/-- The own scope of a context, which its copies share. -/
def Member.own (m : Member) : Option ScopeId :=
  m.context.lineage.head?

namespace Family

def empty : Family :=
  ⟨.initial, 0, [], []⟩

/-- A context joins the family. -/
def add (f : Family) (descent : Descent) (made : Context × Scopes) : Family :=
  { f with scopes := made.2, members := f.members ++ [⟨descent, made.1⟩] }

/-- One move. Nothing is done to a context that is not there. -/
def step (f : Family) : FamilyMove → Family
  | .background => f.add .root f.scopes.background
  | .child p =>
    match f.members[p]? with
    | some parent => f.add (.derived p none) (f.scopes.child parent.context)
    | none => f
  | .withDeadline p deadline =>
    match f.members[p]? with
    | some parent =>
      f.add (.derived p (some deadline)) (f.scopes.withDeadline parent.context deadline)
    | none => f
  | .withTimeout p timeout =>
    match f.members[p]? with
    | some parent =>
      f.add (.derived p (some (f.now + timeout)))
        (f.scopes.withTimeout parent.context f.now timeout)
    | none => f
  | .clone o =>
    match f.members[o]? with
    | some original => f.add (.copy o) (original.context, f.scopes)
    | none => f
  | .cancel k =>
    match f.members[k]? with
    | some m => { f with scopes := f.scopes.cancel m.context, cancelled := k :: f.cancelled }
    | none => f
  | .advance ms => { f with now := f.now + ms }

/-- The family after some moves. -/
def of (moves : List FamilyMove) : Family :=
  moves.foldl step empty

/-- Why a member is done, if it is. -/
def error? (f : Family) (m : Member) : Option ContextError :=
  f.scopes.error? f.now m.context

/-! ## What is meant -/

/-- The first context was made from the second one. -/
def Made (f : Family) (i j : Nat) : Prop :=
  ∃ m, f.members[i]? = some m ∧ m.descent.origin? = some j

/-- The second context is on the way to the first one, from where it all began. -/
def From (f : Family) : Nat → Nat → Prop :=
  ReflTransGen f.Made

/-- The first context was copied from the second one. -/
def Copied (f : Family) (i j : Nat) : Prop :=
  ∃ m, f.members[i]? = some m ∧ m.descent = .copy j

/-- The two are copies of one another, directly or through others. -/
def Alike (f : Family) : Nat → Nat → Prop :=
  EqvGen f.Copied

/-- A deadline was set on the way to a context. -/
def DeadlineSet (f : Family) (i deadline : Nat) : Prop :=
  ∃ j m parent, f.From i j ∧ f.members[j]? = some m ∧ m.descent = .derived parent (some deadline)

/-- One of those on the way to a context was cancelled, or a copy of one of them. -/
def Ended (f : Family) (i : Nat) : Prop :=
  ∃ j k, f.From i j ∧ f.Alike j k ∧ k ∈ f.cancelled

/-- The first context was derived from the second one, or a copy of it was from a copy. -/
def ChildOf (f : Family) (k p : Nat) : Prop :=
  ∃ k' m p' deadline, f.Alike k k' ∧ f.members[k']? = some m ∧ m.descent = .derived p' deadline ∧
    f.Alike p' p

/-! ## What is kept -/

/-- The deadline of a context that was derived with a deadline or without. -/
def inherited : Option Nat → Option Nat → Option Nat
  | none, parent => parent
  | some deadline, parent => some (Scopes.earlier deadline parent)

/-- A context that fits its descent, at its place in the family. -/
inductive Fits (members : List Member) (i : Nat) : Member → Prop
  | root (scope : ScopeId) : Fits members i ⟨.root, ⟨[scope], none⟩⟩
  | derived {p : Nat} {parent : Member} (hparent : members[p]? = some parent) (hlt : p < i)
      {scope : ScopeId} (hnew : ∀ s ∈ parent.context.lineage, s < scope) (deadline : Option Nat) :
      Fits members i ⟨.derived p deadline,
        ⟨scope :: parent.context.lineage, inherited deadline parent.context.deadline⟩⟩
  | copy {o : Nat} {original : Member} (horiginal : members[o]? = some original) (hlt : o < i) :
      Fits members i ⟨.copy o, original.context⟩

/-- Contexts fit their descent, have scopes of their own unless they are copies, and those scopes
are cancelled of which a context was. -/
structure Sound (f : Family) : Prop where
  fits : ∀ (i : Nat) (m : Member), f.members[i]? = some m → Fits f.members i m
  known : ∀ (i : Nat) (m : Member), f.members[i]? = some m →
    ∀ s ∈ m.context.lineage, s < f.scopes.count
  apart : ∀ (i j : Nat) (m m' : Member), f.members[i]? = some m → f.members[j]? = some m' →
    (∀ o, m.descent ≠ .copy o) → (∀ o, m'.descent ≠ .copy o) → m.own = m'.own → i = j
  present : ∀ k ∈ f.cancelled, k < f.members.length
  cancelled : ∀ s, s ∈ f.scopes.cancelled ↔
    ∃ (k : Nat) (m : Member), k ∈ f.cancelled ∧ f.members[k]? = some m ∧ m.own = some s

variable {f : Family} {i j k p : Nat} {m m' : Member}

/-- Nothing can be wrong where there is no context. -/
theorem Sound.empty : Family.empty.Sound where
  fits := by rintro i m ⟨⟩
  known := by rintro i m ⟨⟩
  apart := by rintro i j m m' ⟨⟩
  present := by rintro k ⟨⟩
  cancelled s := by
    constructor
    · rintro ⟨⟩
    · rintro ⟨k, m, ⟨⟩, -⟩

/-! ## One more context -/

/-- Who is in a family after one more has joined it. -/
theorem getElem?_snoc {members : List Member} {last : Member} :
    (members ++ [last])[i]? = some m ↔
      members[i]? = some m ∨ i = members.length ∧ last = m := by
  rw [List.getElem?_append]
  split
  · next hlt =>
    constructor
    · exact .inl
    · rintro (h | ⟨rfl, -⟩)
      · exact h
      · exact absurd hlt (Nat.lt_irrefl _)
  · next hge =>
    have hnone : members[i]? = none := List.getElem?_eq_none (Nat.le_of_not_lt hge)
    rw [hnone, List.getElem?_singleton]
    constructor
    · intro h
      split at h
      · next hzero => exact .inr ⟨by omega, Option.some.inj h⟩
      · cases h
    · rintro (⟨⟨⟩⟩ | ⟨rfl, rfl⟩)
      rw [Nat.sub_self]
      rfl

theorem getElem?_append_of_some {members : List Member} (h : members[i]? = some m)
    (more : List Member) : (members ++ more)[i]? = some m := by
  rw [List.getElem?_append_left (List.getElem?_eq_some_iff.1 h).1, h]

/-- What fits the members so far fits more of them. -/
theorem Fits.mono {members : List Member} (h : Fits members i m) (more : List Member) :
    Fits (members ++ more) i m := by
  cases h with
  | root scope => exact .root scope
  | derived hparent hlt hnew deadline =>
    exact .derived (getElem?_append_of_some hparent more) hlt hnew deadline
  | copy horiginal hlt => exact .copy (getElem?_append_of_some horiginal more) hlt

/-- A context that fits may join the family, if its own scope is new or it is a copy. -/
theorem Sound.add (h : f.Sound) {descent : Descent} {made : Context × Scopes}
    (hfits : Fits f.members f.members.length ⟨descent, made.1⟩)
    (hcancelled : made.2.cancelled = f.scopes.cancelled) (hcount : f.scopes.count ≤ made.2.count)
    (hknown : ∀ s ∈ made.1.lineage, s < made.2.count)
    (hown : (∃ o, descent = .copy o) ∨ made.1.lineage.head? = some f.scopes.count) :
    (f.add descent made).Sound where
  fits i m hm := by
    rcases getElem?_snoc.1 hm with hm | ⟨rfl, rfl⟩
    · exact (h.fits i m hm).mono _
    · exact hfits.mono _
  known i m hm s hs := by
    rcases getElem?_snoc.1 hm with hm | ⟨rfl, rfl⟩
    · exact Nat.lt_of_lt_of_le (h.known i m hm s hs) hcount
    · exact hknown s hs
  apart i j m m' hm hm' horiginal horiginal' hsame := by
    -- an own scope that is new belongs to nobody else
    have hnew (i : Nat) (m : Member) (hm : f.members[i]? = some m)
        (hdescent : ∀ o, descent ≠ .copy o) (hsame : m.own = made.1.lineage.head?) : False := by
      rcases hown with ⟨o, hcopy⟩ | hfresh
      · exact hdescent o hcopy
      · exact Nat.lt_irrefl _ (h.known i m hm _ (List.mem_of_mem_head? (hsame.trans hfresh)))
    rcases getElem?_snoc.1 hm with hm | ⟨rfl, rfl⟩
    · rcases getElem?_snoc.1 hm' with hm' | ⟨rfl, rfl⟩
      · exact h.apart i j m m' hm hm' horiginal horiginal' hsame
      · exact absurd hsame fun hsame => hnew i m hm horiginal' hsame
    · rcases getElem?_snoc.1 hm' with hm' | ⟨rfl, rfl⟩
      · exact absurd hsame.symm fun hsame => hnew j m' hm' horiginal hsame
      · rfl
  present k hk := by
    rw [Family.add, List.length_append]
    exact Nat.lt_add_right _ (h.present k hk)
  cancelled s := by
    show s ∈ made.2.cancelled ↔ _
    rw [hcancelled, h.cancelled]
    constructor
    · rintro ⟨k, m, hk, hm, hs⟩
      exact ⟨k, m, hk, getElem?_append_of_some hm _, hs⟩
    · rintro ⟨k, m, hk, hm, hs⟩
      rcases getElem?_snoc.1 hm with hm | ⟨rfl, -⟩
      · exact ⟨k, m, hk, hm, hs⟩
      · exact absurd (h.present _ hk) (Nat.lt_irrefl _)

/-- All that a move can come to. -/
theorem step_cases (f : Family) (move : FamilyMove) :
    f.step move = f ∨ f.step move = f.add .root f.scopes.background ∨
      (∃ (p : Nat) (parent : Member) (deadline : Option Nat), f.members[p]? = some parent ∧
        f.step move = f.add (.derived p deadline) (⟨f.scopes.count :: parent.context.lineage,
          inherited deadline parent.context.deadline⟩,
          { f.scopes with count := f.scopes.count + 1 })) ∨
      (∃ (o : Nat) (original : Member), f.members[o]? = some original ∧
        f.step move = f.add (.copy o) (original.context, f.scopes)) ∨
      (∃ (k : Nat) (m : Member), f.members[k]? = some m ∧ f.step move =
        { f with scopes := f.scopes.cancel m.context, cancelled := k :: f.cancelled }) ∨
      ∃ ms, f.step move = { f with now := f.now + ms } := by
  cases move with
  | background => exact .inr (.inl rfl)
  | child p =>
    rw [Family.step]
    cases hparent : f.members[p]? with
    | none => exact .inl rfl
    | some parent => exact .inr (.inr (.inl ⟨p, parent, none, hparent, rfl⟩))
  | withDeadline p deadline =>
    rw [Family.step]
    cases hparent : f.members[p]? with
    | none => exact .inl rfl
    | some parent => exact .inr (.inr (.inl ⟨p, parent, some deadline, hparent, rfl⟩))
  | withTimeout p timeout =>
    rw [Family.step]
    cases hparent : f.members[p]? with
    | none => exact .inl rfl
    | some parent => exact .inr (.inr (.inl ⟨p, parent, some (f.now + timeout), hparent, rfl⟩))
  | clone o =>
    rw [Family.step]
    cases horiginal : f.members[o]? with
    | none => exact .inl rfl
    | some original => exact .inr (.inr (.inr (.inl ⟨o, original, horiginal, rfl⟩)))
  | cancel k =>
    rw [Family.step]
    cases hm : f.members[k]? with
    | none => exact .inl rfl
    | some m => exact .inr (.inr (.inr (.inr (.inl ⟨k, m, hm, rfl⟩))))
  | advance ms => exact .inr (.inr (.inr (.inr (.inr ⟨ms, rfl⟩))))

/-- A scope is cancelled once its context was, or if it was before. -/
theorem mem_cancel {s : ScopeId} :
    s ∈ (f.scopes.cancel m.context).cancelled ↔ m.own = some s ∨ s ∈ f.scopes.cancelled := by
  unfold Scopes.cancel Member.own
  rw [List.mem_append]
  cases m.context.lineage with
  | nil => simp
  | cons own rest => simp [eq_comm]

/-- Every move keeps the tree of scopes that of the family. -/
theorem Sound.step (h : f.Sound) (move : FamilyMove) : (f.step move).Sound := by
  rcases f.step_cases move with hstep | hstep | ⟨p, parent, deadline, hparent, hstep⟩ |
    ⟨o, original, horiginal, hstep⟩ | ⟨k, m, hm, hstep⟩ | ⟨ms, hstep⟩ <;> rw [hstep]
  · exact h
  · refine h.add (.root _) rfl (Nat.le_succ _) (fun s hs => ?_) (.inr rfl)
    obtain rfl := List.mem_singleton.1 hs
    exact Nat.lt_succ_self _
  · -- the own scope of the new context is newer than those of its parent
    have hlineage := h.known p parent hparent
    refine h.add (.derived hparent (List.getElem?_eq_some_iff.1 hparent).1 hlineage deadline) rfl
      (Nat.le_succ _) (fun s hs => ?_) (.inr rfl)
    rcases List.mem_cons.1 hs with rfl | hs
    · exact Nat.lt_succ_self _
    · exact Nat.lt_succ_of_lt (hlineage s hs)
  · exact h.add (.copy horiginal (List.getElem?_eq_some_iff.1 horiginal).1) rfl (Nat.le_refl _)
      (h.known o original horiginal) (.inl ⟨o, rfl⟩)
  · refine ⟨h.fits, h.known, h.apart, fun k' hk' => ?_, fun s => ?_⟩
    · rcases List.mem_cons.1 hk' with rfl | hk'
      · exact (List.getElem?_eq_some_iff.1 hm).1
      · exact h.present k' hk'
    · rw [mem_cancel, h.cancelled]
      constructor
      · rintro (hown | ⟨k', m', hk', hm', hown⟩)
        · exact ⟨k, m, List.mem_cons_self, hm, hown⟩
        · exact ⟨k', m', List.mem_cons_of_mem _ hk', hm', hown⟩
      · rintro ⟨k', m', hk', hm', hown⟩
        rcases List.mem_cons.1 hk' with rfl | hk'
        · cases hm.symm.trans hm'
          exact .inl hown
        · exact .inr ⟨k', m', hk', hm', hown⟩
  · exact ⟨h.fits, h.known, h.apart, h.present, h.cancelled⟩

/-- A family is sound whatever its moves. -/
theorem sound_of (moves : List FamilyMove) : (of moves).Sound := by
  have hrun (f : Family) (h : f.Sound) : (moves.foldl Family.step f).Sound := by
    induction moves generalizing f with
    | nil => exact h
    | cons move rest ih => exact ih _ (h.step move)
  exact hrun _ .empty

/-! ## The way to a context -/

/-- On the way to a context are itself and those on the way to the one that it was made from. -/
theorem from_iff (hm : f.members[i]? = some m) :
    f.From i j ↔ j = i ∨ ∃ c, m.descent.origin? = some c ∧ f.From c j := by
  constructor
  · intro hfrom
    rcases ReflTransGen.cases_head hfrom with rfl | ⟨c, ⟨m', hm', horigin⟩, hrest⟩
    · exact .inl rfl
    · cases hm.symm.trans hm'
      exact .inr ⟨c, horigin, hrest⟩
  · rintro (rfl | ⟨c, horigin, hrest⟩)
    · exact .refl
    · exact .head ⟨m, hm, horigin⟩ hrest

/-- Whoever is on the way to the context that another one was made from is on the way to this. -/
theorem From.of_origin (hm : f.members[i]? = some m) (horigin : m.descent.origin? = some k)
    (h : f.From k j) : f.From i j :=
  (from_iff hm).2 (.inr ⟨k, horigin, h⟩)

/-- The scopes of a lineage are the own scopes of those on the way. -/
theorem Sound.mem_lineage_iff (h : f.Sound) (hm : f.members[i]? = some m) {s : ScopeId} :
    s ∈ m.context.lineage ↔
      ∃ (j : Nat) (m' : Member), f.From i j ∧ f.members[j]? = some m' ∧ m'.own = some s := by
  induction i using Nat.strong_induction_on generalizing m with
  | _ i ih =>
  have hfits := h.fits i m hm
  constructor
  · intro hs
    cases hfits with
    | root scope =>
      obtain rfl := List.mem_singleton.1 hs
      exact ⟨i, _, .refl, hm, rfl⟩
    | derived hparent hlt hnew deadline =>
      rcases List.mem_cons.1 hs with rfl | hs
      · exact ⟨i, _, .refl, hm, rfl⟩
      · obtain ⟨j, m', hfrom, hm', hown⟩ := (ih _ hlt hparent).1 hs
        exact ⟨j, m', hfrom.of_origin hm rfl, hm', hown⟩
    | copy horiginal hlt =>
      obtain ⟨j, m', hfrom, hm', hown⟩ := (ih _ hlt horiginal).1 hs
      exact ⟨j, m', hfrom.of_origin hm rfl, hm', hown⟩
  · rintro ⟨j, m', hfrom, hm', hown⟩
    rcases (from_iff hm).1 hfrom with rfl | ⟨c, horigin, hrest⟩
    · cases hm.symm.trans hm'
      exact List.mem_of_mem_head? hown
    · cases hfits with
      | root scope => cases horigin
      | derived hparent hlt hnew deadline =>
        cases horigin
        exact List.mem_cons_of_mem _ ((ih _ hlt hparent).2 ⟨j, m', hrest, hm', hown⟩)
      | copy horiginal hlt =>
        cases horigin
        exact (ih _ hlt horiginal).2 ⟨j, m', hrest, hm', hown⟩

/-- Copies are the same context. -/
theorem Sound.context_eq (h : f.Sound) (halike : f.Alike i j) :
    f.members[i]?.map Member.context = f.members[j]?.map Member.context := by
  induction halike with
  | rel i j hcopied =>
    obtain ⟨m, hm, hdescent⟩ := hcopied
    have hfits := h.fits i m hm
    rw [hm]
    cases hfits with
    | root => cases hdescent
    | derived => cases hdescent
    | copy horiginal =>
      cases hdescent
      rw [horiginal]
      rfl
  | refl => rfl
  | symm _ _ _ ih => exact ih.symm
  | trans _ _ _ _ _ ih ih' => exact ih.trans ih'

/-- Every context is a copy of one that is none, or is none itself. -/
theorem Sound.exists_original (h : f.Sound) (hm : f.members[i]? = some m) :
    ∃ (j : Nat) (m' : Member), f.Alike i j ∧ f.members[j]? = some m' ∧
      ∀ o, m'.descent ≠ .copy o := by
  induction i using Nat.strong_induction_on generalizing m with
  | _ i ih =>
  have hfits := h.fits i m hm
  cases hfits with
  | root => exact ⟨i, _, .refl i, hm, by rintro o ⟨⟩⟩
  | derived => exact ⟨i, _, .refl i, hm, by rintro o ⟨⟩⟩
  | copy horiginal hlt =>
    obtain ⟨j, m', halike, hm', hdescent⟩ := ih _ hlt horiginal
    exact ⟨j, m', .trans _ _ _ (.rel _ _ ⟨_, hm, rfl⟩) halike, hm', hdescent⟩

theorem Sound.own_eq (h : f.Sound) (halike : f.Alike i j) (hm : f.members[i]? = some m)
    (hm' : f.members[j]? = some m') : m.context = m'.context := by
  have hcontext := h.context_eq halike
  rw [hm, hm'] at hcontext
  exact Option.some.inj hcontext

/-- Two contexts share their own scope exactly if they are copies. -/
theorem Sound.own_eq_iff (h : f.Sound) (hm : f.members[i]? = some m)
    (hm' : f.members[j]? = some m') : m.own = m'.own ↔ f.Alike i j := by
  constructor
  · intro hown
    obtain ⟨r, original, halike, hr, horiginal⟩ := h.exists_original hm
    obtain ⟨r', original', halike', hr', horiginal'⟩ := h.exists_original hm'
    have hsame : original.own = original'.own := by
      rw [Member.own, Member.own, ← h.own_eq halike hm hr, ← h.own_eq halike' hm' hr']
      exact hown
    obtain rfl := h.apart r r' original original' hr hr' horiginal horiginal' hsame
    exact .trans _ _ _ halike (.symm _ _ halike')
  · intro halike
    rw [Member.own, Member.own, h.own_eq halike hm hm']

/-- Each member has a scope of its own in its line. -/
theorem Sound.exists_own (h : f.Sound) (hm : f.members[i]? = some m) : ∃ s, m.own = some s := by
  induction i using Nat.strong_induction_on generalizing m with
  | _ i ih =>
  have hfits := h.fits i m hm
  cases hfits with
  | root => exact ⟨_, rfl⟩
  | derived => exact ⟨_, rfl⟩
  | copy horiginal hlt =>
    obtain ⟨s, hown⟩ := ih _ hlt horiginal
    exact ⟨s, hown⟩

/-- A context is cancelled if one of those on the way to it was, or a copy of one of them. -/
theorem Sound.isCancelled_iff (h : f.Sound) (hm : f.members[i]? = some m) :
    f.scopes.isCancelled m.context = true ↔ f.Ended i := by
  rw [Scopes.isCancelled, List.any_eq_true]
  constructor
  · rintro ⟨s, hs, hcancelled⟩
    obtain ⟨j, m', hfrom, hm', hown⟩ := (h.mem_lineage_iff hm).1 hs
    obtain ⟨k, m'', hk, hm'', hown'⟩ := (h.cancelled s).1 (List.contains_iff_mem.1 hcancelled)
    exact ⟨j, k, hfrom, (h.own_eq_iff hm' hm'').1 (hown.trans hown'.symm), hk⟩
  · rintro ⟨j, k, hfrom, halike, hk⟩
    obtain ⟨m'', hm''⟩ : ∃ m'', f.members[k]? = some m'' :=
      ⟨_, List.getElem?_eq_getElem (h.present k hk)⟩
    have hcontext := h.context_eq halike
    rw [hm''] at hcontext
    obtain ⟨m', hm', hsame⟩ := Option.map_eq_some_iff.1 hcontext
    obtain ⟨s, hown⟩ := h.exists_own hm''
    have hown' : m'.own = some s := by
      rw [Member.own, hsame]
      exact hown
    exact ⟨s, (h.mem_lineage_iff hm).2 ⟨j, m', hfrom, hm', hown'⟩,
      List.contains_iff_mem.2 ((h.cancelled s).2 ⟨k, m'', hk, hm'', hown⟩)⟩

/-! ## Deadlines -/

/-- The least of some instants, if there are any. -/
def Earliest (instants : Set Nat) : Option Nat → Prop
  | none => ∀ instant, instant ∉ instants
  | some instant => IsLeast instants instant

/-- With one more deadline, the earlier of it and of the earliest is the earliest. -/
theorem Earliest.inherited {instants : Set Nat} {earliest : Option Nat}
    (h : Earliest instants earliest) (deadline : Option Nat) :
    Earliest {d | deadline = some d ∨ d ∈ instants} (inherited deadline earliest) := by
  cases deadline with
  | none =>
    cases earliest with
    | none =>
      rintro d (⟨⟨⟩⟩ | hd)
      exact h d hd
    | some e =>
      refine ⟨.inr h.1, ?_⟩
      rintro d (⟨⟨⟩⟩ | hd)
      exact h.2 hd
  | some own =>
    cases earliest with
    | none =>
      refine ⟨.inl rfl, ?_⟩
      rintro d (⟨⟨⟩⟩ | hd)
      · exact Nat.le_refl _
      · exact absurd hd (h d)
    | some e =>
      show IsLeast _ (if e < own then e else own)
      split
      · next hlt =>
        refine ⟨.inr h.1, ?_⟩
        rintro d (⟨⟨⟩⟩ | hd)
        · exact Nat.le_of_lt hlt
        · exact h.2 hd
      · next hge =>
        refine ⟨.inl rfl, ?_⟩
        rintro d (⟨⟨⟩⟩ | hd)
        · exact Nat.le_refl _
        · exact Nat.le_trans (Nat.le_of_not_lt hge) (h.2 hd)

/-- The deadlines on the way to a context are its own and those on the way to the one that it was
made from. -/
theorem deadlineSet_iff (hm : f.members[i]? = some m) {d : Nat} :
    f.DeadlineSet i d ↔ (∃ parent, m.descent = .derived parent (some d)) ∨
      ∃ c, m.descent.origin? = some c ∧ f.DeadlineSet c d := by
  constructor
  · rintro ⟨j, m', parent, hfrom, hm', hdescent⟩
    rcases (from_iff hm).1 hfrom with rfl | ⟨c, horigin, hrest⟩
    · cases hm.symm.trans hm'
      exact .inl ⟨parent, hdescent⟩
    · exact .inr ⟨c, horigin, j, m', parent, hrest, hm', hdescent⟩
  · rintro (⟨parent, hdescent⟩ | ⟨c, horigin, j, m', parent, hrest, hm', hdescent⟩)
    · exact ⟨i, m, parent, .refl, hm, hdescent⟩
    · exact ⟨j, m', parent, hrest.of_origin hm horigin, hm', hdescent⟩

/-- The deadline of a context is the least of those that were set on the way to it. -/
theorem Sound.deadline (h : f.Sound) (hm : f.members[i]? = some m) :
    Earliest {d | f.DeadlineSet i d} m.context.deadline := by
  induction i using Nat.strong_induction_on generalizing m with
  | _ i ih =>
  have hfits := h.fits i m hm
  simp only [deadlineSet_iff hm]
  cases hfits with
  | root scope =>
    rintro d (⟨parent, ⟨⟩⟩ | ⟨c, ⟨⟩, -⟩)
  | derived hparent hlt hnew deadline =>
    have hall := (ih _ hlt hparent).inherited deadline
    simpa [Descent.origin?] using hall
  | copy horiginal hlt =>
    have hall := ih _ hlt horiginal
    simpa [Descent.origin?] using hall

/-! ## Why a context is done -/

/-- A context is done for its cancellation, or else for the earliest of the deadlines on the way. -/
theorem Sound.error?_iff (h : f.Sound) (hm : f.members[i]? = some m) :
    (f.error? m = some .canceled ↔ f.Ended i) ∧
      (f.error? m = some .deadlineExceeded ↔
        ¬ f.Ended i ∧ ∃ d, IsLeast {d | f.DeadlineSet i d} d ∧ d ≤ f.now) ∧
      (f.error? m = none ↔ ¬ f.Ended i ∧ ∀ d, f.DeadlineSet i d → f.now < d) := by
  have hdeadline := h.deadline hm
  rw [← h.isCancelled_iff hm]
  unfold error? Scopes.error?
  cases f.scopes.isCancelled m.context with
  | true => simp
  | false =>
    cases hd : m.context.deadline with
    | none =>
      rw [hd] at hdeadline
      refine ⟨by simp, ⟨by rintro ⟨⟩, ?_⟩, ?_, fun _ => rfl⟩
      · rintro ⟨-, d, hleast, -⟩
        exact absurd hleast.1 (hdeadline d)
      · exact fun _ => ⟨Bool.false_ne_true, fun d hset => absurd hset (hdeadline d)⟩
    | some d =>
      rw [hd] at hdeadline
      have hleast : IsLeast {d | f.DeadlineSet i d} d := hdeadline
      simp only [Bool.false_eq_true, if_false, not_false_eq_true, true_and]
      by_cases hle : d ≤ f.now
      · rw [if_pos hle]
        refine ⟨by simp, ⟨fun _ => ⟨d, hleast, hle⟩, fun _ => rfl⟩, by rintro ⟨⟩, fun hall => ?_⟩
        exact absurd (hall d hleast.1) (Nat.not_lt.2 hle)
      · rw [if_neg hle]
        refine ⟨by simp, ⟨by rintro ⟨⟩, ?_⟩, fun _ d' hset => ?_, fun _ => rfl⟩
        · rintro ⟨d', hleast', hle'⟩
          exact absurd (hleast'.unique hleast ▸ hle') hle
        · exact Nat.lt_of_lt_of_le (Nat.lt_of_not_le hle) (hleast.2 hset)

/-! ## Later -/

/-- A family goes on: nobody leaves it, the clock goes on, and what was cancelled stays so. -/
structure Before (f f' : Family) : Prop where
  members : f.members <+: f'.members
  now : f.now ≤ f'.now
  cancelled : f.scopes.cancelled ⊆ f'.scopes.cancelled

/-- A move adds members and keeps what there was of the others. -/
theorem before_step (f : Family) (move : FamilyMove) : f.Before (f.step move) := by
  rcases f.step_cases move with hstep | hstep | ⟨p, parent, deadline, hparent, hstep⟩ |
    ⟨o, original, horiginal, hstep⟩ | ⟨k, m, hm, hstep⟩ | ⟨ms, hstep⟩ <;> rw [hstep]
  · exact ⟨List.prefix_rfl, Nat.le_refl _, List.Subset.refl _⟩
  · exact ⟨List.prefix_append .., Nat.le_refl _, List.Subset.refl _⟩
  · exact ⟨List.prefix_append .., Nat.le_refl _, List.Subset.refl _⟩
  · exact ⟨List.prefix_append .., Nat.le_refl _, List.Subset.refl _⟩
  · exact ⟨List.prefix_rfl, Nat.le_refl _, List.subset_append_right ..⟩
  · exact ⟨List.prefix_rfl, Nat.le_add_right .., List.Subset.refl _⟩

/-- A family is before what it becomes by more moves. -/
theorem before_of (moves more : List FamilyMove) : (of moves).Before (of (moves ++ more)) := by
  have hrun (f : Family) : f.Before (more.foldl Family.step f) := by
    induction more generalizing f with
    | nil => exact ⟨List.prefix_rfl, Nat.le_refl _, List.Subset.refl _⟩
    | cons move rest ih =>
      have hfirst := f.before_step move
      have hrest := ih (f.step move)
      exact ⟨hfirst.members.trans hrest.members, Nat.le_trans hfirst.now hrest.now,
        List.Subset.trans hfirst.cancelled hrest.cancelled⟩
  unfold of
  rw [List.foldl_append]
  exact hrun _

theorem Before.getElem? {f' : Family} (h : f.Before f') (hm : f.members[i]? = some m) :
    f'.members[i]? = some m := by
  obtain ⟨more, hmore⟩ := h.members
  rw [← hmore]
  exact getElem?_append_of_some hm more

/-- A context that is done stays so, and one that was cancelled stays cancelled. -/
theorem Before.error? {f' : Family} (h : f.Before f') (m : Member) :
    (f.error? m ≠ none → f'.error? m ≠ none) ∧
      (f.error? m = some .canceled → f'.error? m = some .canceled) := by
  have hcancelled (hyes : f.scopes.isCancelled m.context = true) :
      f'.scopes.isCancelled m.context = true := by
    obtain ⟨s, hs, hmem⟩ := List.any_eq_true.1 hyes
    exact List.any_eq_true.2
      ⟨s, hs, List.contains_iff_mem.2 (h.cancelled (List.contains_iff_mem.1 hmem))⟩
  unfold Family.error? Scopes.error?
  cases hyes : f.scopes.isCancelled m.context with
  | true =>
    rw [hcancelled hyes]
    simp
  | false =>
    refine ⟨fun hdone => ?_, fun hcanceled => ?_⟩
    · cases hd : m.context.deadline with
      | none => simp [hd] at hdone
      | some d =>
        have hle : d ≤ f.now := by simpa [hd] using hdone
        have hle' : d ≤ f'.now := Nat.le_trans hle h.now
        cases f'.scopes.isCancelled m.context <;> simp [hle']
    · cases hd : m.context.deadline with
      | none => simp [hd] at hcanceled
      | some d => simp [hd] at hcanceled

/-! ## Cancelling one -/

/-- A context that was derived has the lineage of its parent and a newer scope of its own. -/
theorem Sound.lineage_derived (h : f.Sound) {deadline : Option Nat}
    (hm : f.members[i]? = some m) (hdescent : m.descent = .derived p deadline) :
    ∃ (s : ScopeId) (parent : Member), f.members[p]? = some parent ∧
      m.context.lineage = s :: parent.context.lineage ∧ ∀ t ∈ parent.context.lineage, t < s := by
  have hfits := h.fits i m hm
  cases hfits with
  | root => cases hdescent
  | derived hparent hlt hnew =>
    cases hdescent
    exact ⟨_, _, hparent, rfl, hnew⟩
  | copy => cases hdescent

/-- Cancelling one context does nothing to those that it is not on the way to, nor a copy of it. -/
theorem Sound.cancel_other (h : f.Sound) (hm : f.members[i]? = some m)
    (hother : ∀ j, f.From i j → ¬ f.Alike j k) : (f.step (.cancel k)).error? m = f.error? m := by
  rw [Family.step]
  cases hk : f.members[k]? with
  | none => rfl
  | some last =>
    have hsame : (f.scopes.cancel last.context).isCancelled m.context =
        f.scopes.isCancelled m.context := by
      rw [Bool.eq_iff_iff, Scopes.isCancelled, Scopes.isCancelled, List.any_eq_true,
        List.any_eq_true]
      refine exists_congr fun s => and_congr_right fun hs => ?_
      rw [List.contains_iff_mem, List.contains_iff_mem, mem_cancel, or_iff_right]
      intro hown
      obtain ⟨j, m', hfrom, hm', hown'⟩ := (h.mem_lineage_iff hm).1 hs
      exact hother j hfrom ((h.own_eq_iff hm' hk).1 (hown'.trans hown.symm))
    simp only [Family.error?, Scopes.error?, hsame]

/-- A context has the scopes of those on the way to it, and of their copies. -/
theorem Sound.lineage_subset (h : f.Sound) (hfrom : f.From i j) (halike : f.Alike j k)
    (hm : f.members[i]? = some m) (hk : f.members[k]? = some m') :
    m'.context.lineage ⊆ m.context.lineage := by
  intro s hs
  have hcontext := h.context_eq halike
  rw [hk] at hcontext
  obtain ⟨middle, hj, hsame⟩ := Option.map_eq_some_iff.1 hcontext
  obtain ⟨n, last, hrest, hn, hown⟩ := (h.mem_lineage_iff hj).1 (hsame ▸ hs)
  exact (h.mem_lineage_iff hm).2 ⟨n, last, hfrom.trans hrest, hn, hown⟩

/-- The own scope of a child is none of its parent's. -/
theorem ChildOf.lineage (h : f.Sound) (hchild : f.ChildOf k p) (hk : f.members[k]? = some m) :
    ∃ (s : ScopeId) (parent : Member), f.members[p]? = some parent ∧
      m.context.lineage = s :: parent.context.lineage ∧ s ∉ parent.context.lineage := by
  obtain ⟨k', m', p', deadline, halike, hm', hdescent, halike'⟩ := hchild
  obtain ⟨s, parent', hparent', hlineage, hnew⟩ := h.lineage_derived hm' hdescent
  have hcontext := h.context_eq halike'
  rw [hparent'] at hcontext
  obtain ⟨parent, hparent, hsame⟩ := Option.map_eq_some_iff.1 hcontext.symm
  rw [h.own_eq halike hk hm', hlineage, ← hsame]
  exact ⟨s, parent, hparent, rfl, fun hmem => Nat.lt_irrefl s (hnew s (hsame ▸ hmem))⟩

/-- A child is neither on the way to its parent nor a copy of one who is. -/
theorem ChildOf.not_above (h : f.Sound) (hchild : f.ChildOf k p) (hk : f.members[k]? = some m')
    (hfrom : f.From p j) : ¬ f.Alike j k := by
  intro halike
  obtain ⟨s, parent, hparent, hlineage, hnew⟩ := ChildOf.lineage h hchild hk
  have hs : s ∈ m'.context.lineage := by
    rw [hlineage]
    exact List.mem_cons_self
  exact hnew (h.lineage_subset hfrom halike hparent hk hs)

/-- A child is neither on the way to a sibling nor a copy of one who is, unless the two are copies
themselves. -/
theorem ChildOf.not_beside (h : f.Sound) (hchild : f.ChildOf k p) (hsibling : f.ChildOf i p)
    (hk : f.members[k]? = some m') (hm : f.members[i]? = some m) (hother : ¬ f.Alike i k)
    (hfrom : f.From i j) : ¬ f.Alike j k := by
  intro halike
  obtain ⟨s, parent, hparent, hlineage, hnew⟩ := ChildOf.lineage h hchild hk
  obtain ⟨s', parent', hparent', hlineage', -⟩ := ChildOf.lineage h hsibling hm
  cases hparent.symm.trans hparent'
  have hs : s ∈ m'.context.lineage := by
    rw [hlineage]
    exact List.mem_cons_self
  have hs' := h.lineage_subset hfrom halike hm hk hs
  rw [hlineage'] at hs'
  rcases List.mem_cons.1 hs' with rfl | hs'
  · refine hother ((h.own_eq_iff hm hk).1 ?_)
    rw [Member.own, Member.own, hlineage, hlineage', List.head?_cons]
  · exact hnew hs'

/-- What a context is, in a family that came about by any moves. Its deadline is the least of those
that were set on the way to it. It is cancelled exactly if it was, or one of those on the way, or a
copy of one of these, and otherwise it is done as soon as its deadline has come. So a context is
done if one on the way to it is, whoever is done stays so and whoever was cancelled stays cancelled,
and cancelling a context leaves those on the way to its parent, and its siblings, alone. -/
theorem contexts_end_together (moves : List FamilyMove) :
    let f := of moves
    (∀ (i : Nat) (m : Member), f.members[i]? = some m →
      Earliest {d | f.DeadlineSet i d} m.context.deadline ∧
      (f.error? m = some .canceled ↔ f.Ended i) ∧
      (f.error? m = some .deadlineExceeded ↔
        ¬ f.Ended i ∧ ∃ d, IsLeast {d | f.DeadlineSet i d} d ∧ d ≤ f.now) ∧
      (f.error? m = none ↔ ¬ f.Ended i ∧ ∀ d, f.DeadlineSet i d → f.now < d)) ∧
    (∀ (i j : Nat) (m above : Member), f.members[i]? = some m → f.members[j]? = some above →
      f.From i j → f.error? above ≠ none → f.error? m ≠ none) ∧
    (∀ (more : List FamilyMove) (i : Nat) (m : Member), f.members[i]? = some m →
      (of (moves ++ more)).members[i]? = some m ∧
      (f.error? m ≠ none → (of (moves ++ more)).error? m ≠ none) ∧
      (f.error? m = some .canceled → (of (moves ++ more)).error? m = some .canceled)) ∧
    ∀ (k p i : Nat) (m : Member), f.ChildOf k p → f.members[i]? = some m →
      (f.From p i ∨ f.ChildOf i p ∧ ¬ f.Alike i k) →
        (f.step (.cancel k)).error? m = f.error? m := by
  intro f
  have h : f.Sound := sound_of moves
  refine ⟨?meaning, ?above, ?later, ?aside⟩
  case meaning => exact fun i m hm => ⟨h.deadline hm, h.error?_iff hm⟩
  case above =>
    intro i j m above hm habove hfrom hdone hlive
    obtain ⟨hended, hdeadlines⟩ := (h.error?_iff hm).2.2.1 hlive
    refine hdone ((h.error?_iff habove).2.2.2 ⟨?_, ?_⟩)
    · rintro ⟨j', k, hfrom', halike, hk⟩
      exact hended ⟨j', k, hfrom.trans hfrom', halike, hk⟩
    · rintro d ⟨j', m', parent, hfrom', hm', hdescent⟩
      exact hdeadlines d ⟨j', m', parent, hfrom.trans hfrom', hm', hdescent⟩
  case later =>
    intro more i m hm
    have hbefore := before_of moves more
    exact ⟨hbefore.getElem? hm, hbefore.error? m⟩
  case aside =>
    intro k p i m hchild hm hcase
    cases hk : f.members[k]? with
    | none =>
      rw [Family.step, hk]
    | some m' =>
      refine h.cancel_other hm fun j hfrom => ?_
      rcases hcase with habove | ⟨hsibling, hother⟩
      · exact hchild.not_above h hk (habove.trans hfrom)
      · exact hchild.not_beside h hsibling hk hm hother hfrom

/-- Two children of a context that has five milliseconds, and a copy of the first child. -/
def twoChildren : List FamilyMove :=
  [.background, .withTimeout 0 5, .child 1, .child 1, .clone 2]

/-- Once the copy is cancelled, the first child is done, and the second one when the time has come.
What they were derived from goes on. -/
theorem twoChildren_end :
    let f := of (twoChildren ++ [.cancel 4])
    let later := of (twoChildren ++ [.cancel 4] ++ [.advance 7])
    let first : Member := ⟨.derived 1 none, ⟨[2, 1, 0], some 5⟩⟩
    let second : Member := ⟨.derived 1 none, ⟨[3, 1, 0], some 5⟩⟩
    f.Ended 2 ∧ later.error? first = some .canceled ∧ f.error? second = none ∧
      later.error? second = some .deadlineExceeded ∧ later.error? ⟨.root, ⟨[0], none⟩⟩ = none ∧
      ¬ later.Ended 0 := by
  intro f later first second
  obtain ⟨hmeaning, -, hlater, -⟩ := contexts_end_together (twoChildren ++ [.cancel 4])
  obtain ⟨hmeaning', -⟩ := contexts_end_together (twoChildren ++ [.cancel 4] ++ [.advance 7])
  obtain ⟨-, hcanceled, -⟩ := hmeaning 2 first rfl
  obtain ⟨-, -, hstays⟩ := hlater [.advance 7] 2 first rfl
  obtain ⟨-, -, -, hlive⟩ := hmeaning' 0 ⟨.root, ⟨[0], none⟩⟩ rfl
  exact ⟨hcanceled.1 rfl, hstays rfl, rfl, rfl, rfl, (hlive.1 rfl).1⟩

end Family

end ServiceHost
