/-
The objects of one class in the variables of a program: built, called, moved
from one to another and destroyed.  A class whose objects answer every call as
those of another do may stand for it in every program over such variables.
-/
import LeakyChat.Library.Transition
import Mathlib.Data.Option.Basic
import Mathlib.Logic.Function.Basic

namespace Objects

open Transition Function

variable {ι Args Call Out Obj Obj' : Type}

/-- What a class can do with its objects.  A move returns the object moved to
and what it leaves in the one moved from. -/
structure Class (Args Call Out Obj : Type) where
  build : Args → Obj
  moveFrom : Obj → Obj × Obj
  moveAssign : Obj → Obj → Obj × Obj
  call : Call → Obj → Out × Obj

/-- What a program does with the variables `ι`. -/
inductive Operation (ι Args Call : Type) where
  | build (i : ι) (args : Args)
  | moveBuild (i j : ι)
  | moveAssign (i j : ι)
  | destroy (i : ι)
  | call (i : ι) (c : Call)

/-- The variables that hold an object, and the objects they hold. -/
abbrev Pool (ι Obj : Type) := ι → Option Obj

/-- One operation and what it returned, which only a call does. -/
inductive Class.Step [DecidableEq ι] (cls : Class Args Call Out Obj) :
    Pool ι Obj → Operation ι Args Call × Option Out → Pool ι Obj → Prop
  | build {pool : Pool ι Obj} {i : ι} (args : Args) (hfree : pool i = none) :
      cls.Step pool (.build i args, none) (update pool i (some (cls.build args)))
  | moveBuild {pool : Pool ι Obj} {i j : ι} {other : Obj} (hfree : pool i = none)
      (hother : pool j = some other) :
      cls.Step pool (.moveBuild i j, none)
        (update (update pool j (some (cls.moveFrom other).2)) i
          (some (cls.moveFrom other).1))
  | moveAssign {pool : Pool ι Obj} {i j : ι} {this other : Obj}
      (hthis : pool i = some this) (hother : pool j = some other) (hne : i ≠ j) :
      cls.Step pool (.moveAssign i j, none)
        (update (update pool j (some (cls.moveAssign this other).2)) i
          (some (cls.moveAssign this other).1))
  | moveSelf {pool : Pool ι Obj} {i : ι} {this : Obj} (hthis : pool i = some this) :
      cls.Step pool (.moveAssign i i, none) pool
  | destroy {pool : Pool ι Obj} {i : ι} {this : Obj} (hthis : pool i = some this) :
      cls.Step pool (.destroy i, none) (update pool i none)
  | call {pool : Pool ι Obj} {i : ι} {this : Obj} (c : Call)
      (hthis : pool i = some this) :
      cls.Step pool (.call i c, some (cls.call c this).1)
        (update pool i (some (cls.call c this).2))

/-- Programs start with no object built. -/
def Class.system [DecidableEq ι] (cls : Class Args Call Out Obj) :
    System (Pool ι Obj) (Operation ι Args Call × Option Out) where
  init pool := pool = fun _ => none
  step := cls.Step

theorem Class.Step.of_call [DecidableEq ι] {cls : Class Args Call Out Obj}
    {pool : Pool ι Obj} {i : ι} {this : Obj} {c : Call} {out : Out}
    (hthis : pool i = some this) (hout : (cls.call c this).1 = out) :
    cls.Step pool (.call i c, some out) (update pool i (some (cls.call c this).2)) := by
  rw [← hout]
  exact .call c hthis

theorem Class.Step.cons [DecidableEq ι] {cls : Class Args Call Out Obj}
    {pool t : Pool ι Obj} {label : Operation ι Args Call × Option Out}
    {labels : List (Operation ι Args Call × Option Out)} (hhead : cls.Step pool label t)
    (htail : ∃ u, Run cls.system t labels u) :
    ∃ u, Run cls.system pool (label :: labels) u := by
  obtain ⟨u, htail⟩ := htail
  exact ⟨u, Run.cons hhead htail⟩

/-- Objects of `cls` answer as the objects of `spec` that `R` relates them to. -/
structure Class.Refines (cls : Class Args Call Out Obj)
    (spec : Class Args Call Out Obj') (R : Obj → Obj' → Prop) : Prop where
  build : ∀ args, R (cls.build args) (spec.build args)
  moveFrom : ∀ other other', R other other' →
    R (cls.moveFrom other).1 (spec.moveFrom other').1 ∧
      R (cls.moveFrom other).2 (spec.moveFrom other').2
  moveAssign : ∀ this this' other other', R this this' → R other other' →
    R (cls.moveAssign this other).1 (spec.moveAssign this' other').1 ∧
      R (cls.moveAssign this other).2 (spec.moveAssign this' other').2
  call : ∀ c this this', R this this' →
    (cls.call c this).1 = (spec.call c this').1 ∧
      R (cls.call c this).2 (spec.call c this').2

/-- The same variables hold objects, related ones. -/
def Matches (R : Obj → Obj' → Prop) (pool : Pool ι Obj) (pool' : Pool ι Obj') : Prop :=
  ∀ i, Option.Rel R (pool i) (pool' i)

namespace Matches

variable {R : Obj → Obj' → Prop} {pool : Pool ι Obj} {pool' : Pool ι Obj'}

theorem update [DecidableEq ι] (hpools : Matches R pool pool') (i : ι)
    {obj : Option Obj} {obj' : Option Obj'} (hobj : Option.Rel R obj obj') :
    Matches R (update pool i obj) (update pool' i obj') := by
  intro k
  by_cases hk : k = i
  · subst hk
    simpa using hobj
  · simpa [hk] using hpools k

theorem none (hpools : Matches R pool pool') {i : ι} (hfree : pool i = none) :
    pool' i = Option.none := by
  have hi := hpools i
  rw [hfree] at hi
  cases hpool : pool' i with
  | none => rfl
  | some obj' =>
      rw [hpool] at hi
      cases hi

theorem some (hpools : Matches R pool pool') {i : ι} {obj : Obj}
    (hobj : pool i = some obj) : ∃ obj', pool' i = Option.some obj' ∧ R obj obj' := by
  have hi := hpools i
  rw [hobj] at hi
  cases hpool : pool' i with
  | none =>
      rw [hpool] at hi
      cases hi
  | some obj' =>
      rw [hpool] at hi
      cases hi with
      | some hR => exact ⟨obj', rfl, hR⟩

end Matches

variable {cls : Class Args Call Out Obj} {spec : Class Args Call Out Obj'}
  {R : Obj → Obj' → Prop}

theorem Class.Refines.step [DecidableEq ι] (href : cls.Refines spec R)
    {pool t : Pool ι Obj} {pool' : Pool ι Obj'}
    {label : Operation ι Args Call × Option Out} (hpools : Matches R pool pool')
    (hstep : cls.Step pool label t) :
    ∃ t', spec.Step pool' label t' ∧ Matches R t t' := by
  cases hstep with
  | build args hfree =>
      exact ⟨_, .build args (hpools.none hfree), hpools.update _ (.some (href.build args))⟩
  | moveBuild hfree hother =>
      obtain ⟨other', hother', hR⟩ := hpools.some hother
      obtain ⟨hnew, hleft⟩ := href.moveFrom _ _ hR
      exact ⟨_, .moveBuild (hpools.none hfree) hother',
        (hpools.update _ (.some hleft)).update _ (.some hnew)⟩
  | moveAssign hthis hother hne =>
      obtain ⟨this', hthis', hthisR⟩ := hpools.some hthis
      obtain ⟨other', hother', hotherR⟩ := hpools.some hother
      obtain ⟨hnew, hleft⟩ := href.moveAssign _ _ _ _ hthisR hotherR
      exact ⟨_, .moveAssign hthis' hother' hne,
        (hpools.update _ (.some hleft)).update _ (.some hnew)⟩
  | moveSelf hthis =>
      obtain ⟨this', hthis', _⟩ := hpools.some hthis
      exact ⟨_, .moveSelf hthis', hpools⟩
  | destroy hthis =>
      obtain ⟨this', hthis', _⟩ := hpools.some hthis
      exact ⟨_, .destroy hthis', hpools.update _ .none⟩
  | call c hthis =>
      obtain ⟨this', hthis', hR⟩ := hpools.some hthis
      obtain ⟨hout, hleft⟩ := href.call c _ _ hR
      rw [hout]
      exact ⟨_, .call c hthis', hpools.update _ (.some hleft)⟩

/-- Every program over `cls` runs over `spec` with the same returns. -/
theorem Class.Refines.run [DecidableEq ι] (href : cls.Refines spec R)
    {pool t : Pool ι Obj} {pool' : Pool ι Obj'}
    {labels : List (Operation ι Args Call × Option Out)}
    (hrun : Run cls.system pool labels t) (hpools : Matches R pool pool') :
    ∃ t', Run spec.system pool' labels t' ∧ Matches R t t' := by
  apply hrun.follow (R := Matches R) _ hpools
  intro s label t s' hR hstep
  exact href.step hR hstep

/-- All the objects there are satisfy `Inv`. -/
def All (Inv : Obj → Prop) (pool : Pool ι Obj) : Prop :=
  ∀ i this, pool i = some this → Inv this

namespace All

variable {Inv Safe : Obj → Prop} {pool : Pool ι Obj}

theorem update [DecidableEq ι] (hpool : All Inv pool) (i : ι) {obj : Obj} (hobj : Inv obj) :
    All Inv (update pool i (some obj)) := by
  intro k this hk
  by_cases hki : k = i
  · subst hki
    rw [Function.update_self, Option.some.injEq] at hk
    rw [← hk]
    exact hobj
  · rw [Function.update_of_ne hki] at hk
    exact hpool k this hk

theorem destroy [DecidableEq ι] (hpool : All Inv pool) (i : ι) :
    All Inv (Function.update pool i none) := by
  intro k this hk
  by_cases hki : k = i
  · subst hki
    rw [Function.update_self] at hk
    cases hk
  · rw [Function.update_of_ne hki] at hk
    exact hpool k this hk

theorem mono (hpool : All Inv pool) (hsafe : ∀ this, Inv this → Safe this) : All Safe pool :=
  fun i this hi => hsafe this (hpool i this hi)

end All

/-- A call on an object that meets `meets`; nothing is asked of the rest. -/
def Meets (meets : Call → Obj → Prop) (pool : Pool ι Obj)
    (label : Operation ι Args Call × Option Out) : Prop :=
  ∀ i c this, label.1 = .call i c → pool i = some this → meets c this

/-- `Inv` is what building gives, and what moves and the calls that meet `meets`
leave of it. -/
structure Class.Keeps (cls : Class Args Call Out Obj) (meets : Call → Obj → Prop)
    (Inv : Obj → Prop) : Prop where
  build : ∀ args, Inv (cls.build args)
  moveFrom : ∀ other, Inv other → Inv (cls.moveFrom other).1 ∧ Inv (cls.moveFrom other).2
  moveAssign : ∀ this other, Inv this → Inv other →
    Inv (cls.moveAssign this other).1 ∧ Inv (cls.moveAssign this other).2
  call : ∀ c this, Inv this → meets c this → Inv (cls.call c this).2

section

variable [DecidableEq ι] {meets : Call → Obj → Prop} {Inv Safe : Obj → Prop}
  {pool t : Pool ι Obj} {label : Operation ι Args Call × Option Out}

theorem Class.Keeps.step (hkeeps : cls.Keeps meets Inv) (hpool : All Inv pool)
    (hstep : cls.Step pool label t) (hmeets : Meets meets pool label) : All Inv t := by
  cases hstep with
  | build args hfree => exact hpool.update _ (hkeeps.build args)
  | moveBuild hfree hother =>
      obtain ⟨hnew, hleft⟩ := hkeeps.moveFrom _ (hpool _ _ hother)
      exact (hpool.update _ hleft).update _ hnew
  | moveAssign hthis hother hne =>
      obtain ⟨hnew, hleft⟩ := hkeeps.moveAssign _ _ (hpool _ _ hthis) (hpool _ _ hother)
      exact (hpool.update _ hleft).update _ hnew
  | moveSelf hthis => exact hpool
  | destroy hthis => exact hpool.destroy _
  | call c hthis =>
      exact hpool.update _ (hkeeps.call c _ (hpool _ _ hthis) (hmeets _ c _ rfl hthis))

/-- The invariant rule for the objects of a class. -/
theorem Class.Keeps.reachable (hkeeps : cls.Keeps meets Inv)
    (hreach : Reachable (cls.system.restrict (Meets meets)) pool) : All Inv pool := by
  apply hreach.invariant
  · rintro pool rfl i this hi
    cases hi
  · intro s label t hs hstep
    exact hkeeps.step hs hstep.1 hstep.2

/-- Where a call leaves a safe object only if it meets `meets`, so does a step. -/
theorem Class.Keeps.step_iff (hkeeps : cls.Keeps meets Inv)
    (hsafe : ∀ this, Inv this → Safe this)
    (hcall : ∀ c this, Inv this → Safe (cls.call c this).2 → meets c this)
    (hpool : All Inv pool) (hstep : cls.Step pool label t) :
    All Safe t ↔ Meets meets pool label := by
  constructor
  · intro ht i c this hlabel hthis
    cases hstep with
    | call c hthis' =>
        cases hlabel
        rw [hthis', Option.some.injEq] at hthis
        subst hthis
        exact hcall c _ (hpool _ _ hthis') (ht i _ (Function.update_self ..))
    | _ => cases hlabel
  · intro hmeets
    exact (hkeeps.step hpool hstep hmeets).mono hsafe

end

end Objects
