import Unerase.Proofs.Walk.Ty
import Unerase.Visitor.Count

namespace Unerase

namespace Observer

/-- The state after the types have been shown. -/
def after (o : Observer) (seen : List Ty) (s : o.state) : o.state :=
  seen.foldl (fun s t => o.note t s) s

theorem after_append (o : Observer) (seen seen' : List Ty) (s : o.state) :
    o.after (seen ++ seen') s = o.after seen' (o.after seen s) :=
  List.foldl_append

theorem entersAll (o : Observer) (body : Body → Run (Fault o.error) o.state Body) :
    (o.visitor body).EntersAll :=
  fun _ => rfl

theorem visit_apply (o : Observer) (body : Body → Run (Fault o.error) o.state Body) (t : Ty)
    (s : o.state) : t.visit (o.visitor body) s = t.walk (o.visitor body) (o.note t s) := by
  rw [Ty.visit_eq_reach]
  rfl

variable {α β : Type}

/-- Every observer is shown these types by the walk, one after the other, and gets the value. -/
def Shows (walk : (o : Observer) → Run (Fault o.error) o.state α) (a : α)
    (seen : List Ty) : Prop :=
  ∀ o s, walk o s = (.ok a, o.after seen s)

/-- Observers are shown a placeholder by the walk exactly if one has been found. -/
def Tells (walk : (o : Observer) → Run (Fault o.error) o.state α) (a : α)
    (found : Bool) : Prop :=
  ∃ seen, Shows walk a seen ∧ seen.any Ty.isErased = found

namespace Tells

variable {walk : (o : Observer) → Run (Fault o.error) o.state α} {a : α}
  {rest : (o : Observer) → α → Run (Fault o.error) o.state β} {b : β} {found found' : Bool}

theorem pure (a : α) : Tells (fun _ => Pure.pure a) a false :=
  ⟨[], fun _ _ => rfl, rfl⟩

theorem bind (hwalk : Tells walk a found) (hrest : Tells (fun o => rest o a) b found') :
    Tells (fun o => walk o >>= rest o) b (found || found') := by
  obtain ⟨seen, hseen, rfl⟩ := hwalk
  obtain ⟨seen', hseen', rfl⟩ := hrest
  refine ⟨seen ++ seen', fun o s => ?_, List.any_append⟩
  show (walk o >>= rest o) s = _
  rw [Run.bind_apply, hseen o s, after_append]
  exact hseen' o _

theorem of_eq (hwalk : Tells walk a found) (hfound : found = found') : Tells walk a found' :=
  hfound ▸ hwalk

theorem map (hwalk : Tells walk a found) (f : α → β) :
    Tells (fun o => walk o >>= fun a => Pure.pure (f a)) (f a) found := by
  obtain ⟨seen, hseen, rfl⟩ := hwalk
  refine ⟨seen, fun o s => ?_, rfl⟩
  show (walk o >>= fun a => Pure.pure (f a)) s = _
  rw [Run.bind_apply, hseen o s]
  rfl

theorem reach {t : Ty} (h : Tells (fun o => t.walk o.visitor) t found) :
    Tells (fun o => t.visit o.visitor) t (t.isErased || found) := by
  obtain ⟨seen, hseen, rfl⟩ := h
  refine ⟨t :: seen, fun o s => ?_, rfl⟩
  show t.visit o.visitor s = _
  rw [visit_apply]
  exact hseen o (o.note t s)

theorem exists_shown (h : Tells walk a found) :
    ∃ seen, Shows walk a seen ∧ (found = true ↔ ∃ u ∈ seen, u.isErased = true) := by
  obtain ⟨seen, hseen, rfl⟩ := h
  exact ⟨seen, hseen, List.any_eq_true⟩

theorem within {site : Site} (h : Tells walk a found) :
    Tells (fun o => o.visitor.within site a (walk o)) a found := by
  simpa only [(entersAll _ _).within] using h

end Tells

end Observer

open Observer

mutual

theorem Ty.visit_tells : ∀ t : Ty, Tells (fun o => t.visit o.visitor) t t.hasErased
  | .never => .reach (.pure _)
  | .prim _ => .reach (.pure _)
  | .path p => .reach ((Path.visit_tells p).map _)
  | .param _ => .reach (.pure _)
  | .dyn trait markers =>
      .reach ((ItemRef.visit_tells trait).bind ((ItemRef.visitList_tells markers).map _))
  | .erased origin _ bounds =>
      .reach ((Path.visit_tells origin).bind ((ItemRef.visitList_tells bounds).map _))
  | .array elem _ => .reach ((Ty.visit_tells elem).map _)
  | .slice elem => .reach ((Ty.visit_tells elem).map _)
  | .tuple elems => .reach ((Ty.visitList_tells elems).map _)
  | .ref _ target => .reach ((Ty.visit_tells target).map _)
  | .ptr _ target => .reach ((Ty.visit_tells target).map _)
  | .fn args result => .reach ((Ty.visitList_tells args).bind ((Ty.visit_tells result).map _))
termination_by structural t => t

theorem Path.visit_tells : ∀ p : Path, Tells (fun o => p.visit o.visitor) p p.hasErased
  | .item target => .within ((ItemRef.visit_tells target).map _)
  | .inherent self _ args =>
      .within ((Ty.visit_tells self).bind ((Args.visit_tells args).map _))
  | .known self trait _ args =>
      .within (.of_eq ((Ty.visit_tells self).bind
        ((ItemRef.visit_tells trait).bind ((Args.visit_tells args).map _)))
        (Bool.or_assoc ..).symm)
  | .unknown self _ args =>
      .within ((Ty.visit_tells self).bind ((Args.visit_tells args).map _))
termination_by structural p => p

theorem ItemRef.visit_tells : ∀ r : ItemRef,
    Tells (fun o => r.visit o.visitor) r r.hasErased
  | ⟨_, args⟩ => .within ((Args.visit_tells args).map _)
termination_by structural r => r

theorem Args.visit_tells : ∀ a : Args, Tells (fun o => a.visit o.visitor) a a.hasErased
  | ⟨types, _⟩ => .within ((Ty.visitList_tells types).map _)
termination_by structural a => a

theorem Ty.visitList_tells : ∀ ts : List Ty,
    Tells (fun o => Ty.visitList o.visitor ts) ts (Ty.anyErased ts)
  | [] => .pure []
  | t :: ts => (Ty.visit_tells t).bind ((Ty.visitList_tells ts).map _)
termination_by structural ts => ts

theorem ItemRef.visitList_tells : ∀ rs : List ItemRef,
    Tells (fun o => ItemRef.visitList o.visitor rs) rs (ItemRef.anyErased rs)
  | [] => .pure []
  | r :: rs => (ItemRef.visit_tells r).bind ((ItemRef.visitList_tells rs).map _)
termination_by structural rs => rs

end

end Unerase
