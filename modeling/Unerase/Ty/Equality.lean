import Unerase.Ty.Basic

namespace Unerase

mutual

/-- Compares types part by part, bounds of placeholders included. -/
def Ty.same : Ty → Ty → Bool
  | .never, .never => true
  | .prim p, .prim q => p == q
  | .path p, .path q => p.same q
  | .param p, .param q => p == q
  | .dyn trait markers, .dyn trait' markers' =>
      trait.same trait' && ItemRef.sameList markers markers'
  | .erased origin index bounds, .erased origin' index' bounds' =>
      origin.same origin' && index == index' && ItemRef.sameList bounds bounds'
  | .array elem size, .array elem' size' => elem.same elem' && size == size'
  | .slice elem, .slice elem' => elem.same elem'
  | .tuple elems, .tuple elems' => Ty.sameList elems elems'
  | .ref kind target, .ref kind' target' => kind == kind' && target.same target'
  | .ptr mutable target, .ptr mutable' target' =>
      mutable == mutable' && target.same target'
  | .fn args result, .fn args' result' =>
      Ty.sameList args args' && result.same result'
  | _, _ => false
termination_by structural t => t

def Path.same : Path → Path → Bool
  | .item target, .item target' => target.same target'
  | .inherent self name args, .inherent self' name' args' =>
      self.same self' && name == name' && args.same args'
  | .known self trait name args, .known self' trait' name' args' =>
      self.same self' && trait.same trait' && name == name' && args.same args'
  | .unknown self name args, .unknown self' name' args' =>
      self.same self' && name == name' && args.same args'
  | _, _ => false
termination_by structural p => p

def ItemRef.same : ItemRef → ItemRef → Bool
  | ⟨name, args⟩, ⟨name', args'⟩ => name == name' && args.same args'
termination_by structural r => r

def Args.same : Args → Args → Bool
  | ⟨types, consts⟩, ⟨types', consts'⟩ =>
      Ty.sameList types types' && consts == consts'
termination_by structural a => a

def Ty.sameList : List Ty → List Ty → Bool
  | [], [] => true
  | t :: ts, u :: us => t.same u && Ty.sameList ts us
  | _, _ => false
termination_by structural ts => ts

def ItemRef.sameList : List ItemRef → List ItemRef → Bool
  | [], [] => true
  | r :: rs, s :: ss => r.same s && ItemRef.sameList rs ss
  | _, _ => false
termination_by structural rs => rs

end

mutual

theorem Ty.same_iff : ∀ t u : Ty, t.same u = true ↔ t = u
  | .never, u => by cases u <;> simp [Ty.same]
  | .prim p, u => by cases u <;> simp [Ty.same]
  | .path p, u => by cases u <;> simp [Ty.same, Path.same_iff p]
  | .param p, u => by cases u <;> simp [Ty.same]
  | .dyn trait markers, u => by
      cases u <;>
        simp [Ty.same, ItemRef.same_iff trait, ItemRef.sameList_iff markers]
  | .erased origin index bounds, u => by
      cases u <;>
        simp [Ty.same, Path.same_iff origin, ItemRef.sameList_iff bounds,
          and_assoc]
  | .array elem size, u => by cases u <;> simp [Ty.same, Ty.same_iff elem]
  | .slice elem, u => by cases u <;> simp [Ty.same, Ty.same_iff elem]
  | .tuple elems, u => by cases u <;> simp [Ty.same, Ty.sameList_iff elems]
  | .ref kind target, u => by cases u <;> simp [Ty.same, Ty.same_iff target]
  | .ptr mutable target, u => by cases u <;> simp [Ty.same, Ty.same_iff target]
  | .fn args result, u => by
      cases u <;> simp [Ty.same, Ty.sameList_iff args, Ty.same_iff result]

theorem Path.same_iff : ∀ p q : Path, p.same q = true ↔ p = q
  | .item target, q => by cases q <;> simp [Path.same, ItemRef.same_iff target]
  | .inherent self name args, q => by
      cases q <;>
        simp [Path.same, Ty.same_iff self, Args.same_iff args, and_assoc]
  | .known self trait name args, q => by
      cases q <;>
        simp [Path.same, Ty.same_iff self, ItemRef.same_iff trait,
          Args.same_iff args, and_assoc]
  | .unknown self name args, q => by
      cases q <;>
        simp [Path.same, Ty.same_iff self, Args.same_iff args, and_assoc]

theorem ItemRef.same_iff : ∀ r s : ItemRef, r.same s = true ↔ r = s
  | ⟨name, args⟩, ⟨name', args'⟩ => by
      simp [ItemRef.same, Args.same_iff args]

theorem Args.same_iff : ∀ a b : Args, a.same b = true ↔ a = b
  | ⟨types, consts⟩, ⟨types', consts'⟩ => by
      simp [Args.same, Ty.sameList_iff types]

theorem Ty.sameList_iff : ∀ ts us : List Ty, Ty.sameList ts us = true ↔ ts = us
  | [], us => by cases us <;> simp [Ty.sameList]
  | t :: ts, us => by
      cases us <;> simp [Ty.sameList, Ty.same_iff t, Ty.sameList_iff ts]

theorem ItemRef.sameList_iff :
    ∀ rs ss : List ItemRef, ItemRef.sameList rs ss = true ↔ rs = ss
  | [], ss => by cases ss <;> simp [ItemRef.sameList]
  | r :: rs, ss => by
      cases ss <;>
        simp [ItemRef.sameList, ItemRef.same_iff r, ItemRef.sameList_iff rs]

end

instance : DecidableEq Ty := fun t u => decidable_of_iff _ (Ty.same_iff t u)

instance : DecidableEq Path := fun p q => decidable_of_iff _ (Path.same_iff p q)

instance : DecidableEq ItemRef :=
  fun r s => decidable_of_iff _ (ItemRef.same_iff r s)

instance : DecidableEq Args := fun a b => decidable_of_iff _ (Args.same_iff a b)

end Unerase
