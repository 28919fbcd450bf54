import Unerase.Proofs.Matching.Findings

namespace Unerase

mutual

/-- In the first two types, the last two stand at the same place. -/
inductive Ty.LinesUp : Ty → Ty → Ty → Ty → Prop
  | here (t u : Ty) : Ty.LinesUp t u t u
  | path {p q : Path} {a b : Ty} :
      p.LinesUp q a b → Ty.LinesUp (.path p) (.path q) a b
  | trait {r s : ItemRef} {rs ss : List ItemRef} {a b : Ty} :
      rs.length = ss.length → r.LinesUp s a b →
      Ty.LinesUp (.dyn r rs) (.dyn s ss) a b
  | marker {trait trait' r s : ItemRef} {rs ss : List ItemRef} {i : Nat} {a b : Ty} :
      rs.length = ss.length → rs[i]? = some r → ss[i]? = some s → r.LinesUp s a b →
      Ty.LinesUp (.dyn trait rs) (.dyn trait' ss) a b
  | origin {p q : Path} {index : Nat} {bounds bounds' : List ItemRef} {a b : Ty} :
      p.LinesUp q a b → Ty.LinesUp (.erased p index bounds) (.erased q index bounds') a b
  | array {t u : Ty} {size size' : Const} {a b : Ty} :
      t.LinesUp u a b → Ty.LinesUp (.array t size) (.array u size') a b
  | slice {t u a b : Ty} :
      t.LinesUp u a b → Ty.LinesUp (.slice t) (.slice u) a b
  | tuple {ts us : List Ty} {i : Nat} {t u a b : Ty} :
      ts.length = us.length → ts[i]? = some t → us[i]? = some u → t.LinesUp u a b →
      Ty.LinesUp (.tuple ts) (.tuple us) a b
  | ref {kind : RefKind} {t u a b : Ty} :
      t.LinesUp u a b → Ty.LinesUp (.ref kind t) (.ref kind u) a b
  | ptr {mutable : Bool} {t u a b : Ty} :
      t.LinesUp u a b → Ty.LinesUp (.ptr mutable t) (.ptr mutable u) a b
  | arg {ts us : List Ty} {result result' : Ty} {i : Nat} {t u a b : Ty} :
      ts.length = us.length → ts[i]? = some t → us[i]? = some u → t.LinesUp u a b →
      Ty.LinesUp (.fn ts result) (.fn us result') a b
  | result {ts us : List Ty} {t u a b : Ty} :
      ts.length = us.length → t.LinesUp u a b →
      Ty.LinesUp (.fn ts t) (.fn us u) a b

/-- In the two paths, the two types stand at the same place. -/
inductive Path.LinesUp : Path → Path → Ty → Ty → Prop
  | item {r s : ItemRef} {a b : Ty} :
      r.LinesUp s a b → Path.LinesUp (.item r) (.item s) a b
  | inherentSelf {t u : Ty} {name : String} {args args' : Args} {a b : Ty} :
      t.LinesUp u a b → Path.LinesUp (.inherent t name args) (.inherent u name args') a b
  | inherentArgs {t u : Ty} {name : String} {args args' : Args} {a b : Ty} :
      args.LinesUp args' a b →
      Path.LinesUp (.inherent t name args) (.inherent u name args') a b
  | knownSelf {t u : Ty} {r s : ItemRef} {name : String} {args args' : Args} {a b : Ty} :
      t.LinesUp u a b → Path.LinesUp (.known t r name args) (.known u s name args') a b
  | knownTrait {t u : Ty} {r s : ItemRef} {name : String} {args args' : Args} {a b : Ty} :
      r.LinesUp s a b → Path.LinesUp (.known t r name args) (.known u s name args') a b
  | knownArgs {t u : Ty} {r s : ItemRef} {name : String} {args args' : Args} {a b : Ty} :
      args.LinesUp args' a b →
      Path.LinesUp (.known t r name args) (.known u s name args') a b
  | unknownSelf {t u : Ty} {name : String} {args args' : Args} {a b : Ty} :
      t.LinesUp u a b → Path.LinesUp (.unknown t name args) (.unknown u name args') a b
  | unknownArgs {t u : Ty} {name : String} {args args' : Args} {a b : Ty} :
      args.LinesUp args' a b →
      Path.LinesUp (.unknown t name args) (.unknown u name args') a b

/-- In the two references, the two types stand at the same place. -/
inductive ItemRef.LinesUp : ItemRef → ItemRef → Ty → Ty → Prop
  | args {name : ItemName} {args args' : Args} {a b : Ty} :
      args.LinesUp args' a b → ItemRef.LinesUp ⟨name, args⟩ ⟨name, args'⟩ a b

/-- In the two argument lists, the two types stand at the same place. -/
inductive Args.LinesUp : Args → Args → Ty → Ty → Prop
  | type {ts us : List Ty} {consts consts' : List Const} {i : Nat} {t u a b : Ty} :
      ts.length = us.length → consts.length = consts'.length → ts[i]? = some t →
      us[i]? = some u → t.LinesUp u a b → Args.LinesUp ⟨ts, consts⟩ ⟨us, consts'⟩ a b

end

namespace Finding

/-- The types that are found are related: a parameter to what it lines up with, and types
that disagree to each other. -/
def Relates (R : Ty → Ty → Prop) : Finding → Prop
  | .type p t => R (.param p) t
  | .const .. => True
  | .clash t u => R t u

/-- All findings relate types so. -/
def AllRelate (R : Ty → Ty → Prop) (fs : List Finding) : Prop :=
  ∀ f ∈ fs, f.Relates R

variable {R : Ty → Ty → Prop} {clash : Finding} {fs gs : List Finding}

theorem allRelate_nil (R : Ty → Ty → Prop) : AllRelate R [] :=
  fun _ hf => nomatch hf

theorem allRelate_singleton {f : Finding} (h : f.Relates R) : AllRelate R [f] :=
  fun _ hg => List.mem_singleton.1 hg ▸ h

theorem AllRelate.append (hfs : AllRelate R fs) (hgs : AllRelate R gs) :
    AllRelate R (fs ++ gs) :=
  List.forall_mem_append.2 ⟨hfs, hgs⟩

theorem allRelate_ite {c : Prop} [Decidable c] (hclash : clash.Relates R)
    (h : c → AllRelate R fs) : AllRelate R (if c then fs else [clash]) := by
  split
  · rename_i hc
    exact h hc
  · exact allRelate_singleton hclash

end Finding

section Places

open Finding

variable {R : Ty → Ty → Prop} {clash : Finding}

theorem Const.findings_relate (hclash : clash.Relates R) (a b : Const) :
    AllRelate R (a.findings clash b) := by
  cases a with
  | param p => exact allRelate_singleton trivial
  | lit a => exact allRelate_ite hclash fun _ => allRelate_nil R

theorem Const.findingsOfList_relate (hclash : clash.Relates R) :
    ∀ as bs : List Const, AllRelate R (Const.findingsOfList clash as bs)
  | [], _ => by
      rw [Const.findingsOfList]
      · exact allRelate_nil R
      · simp
  | _ :: _, [] => by
      rw [Const.findingsOfList]
      · exact allRelate_nil R
      · simp
  | a :: as, b :: bs =>
      (Const.findings_relate hclash a b).append (Const.findingsOfList_relate hclash as bs)

theorem Ty.clash_relates {t u : Ty} (h : ∀ a b, t.LinesUp u a b → R a b) :
    (Finding.clash t u).Relates R :=
  h t u (.here t u)

mutual

/-- A match finds what it finds at places that line up. -/
theorem Ty.findings_relate {R : Ty → Ty → Prop} : ∀ t u : Ty,
    (∀ a b, t.LinesUp u a b → R a b) → AllRelate R (t.findings u)
  | .param p, u, h => by
      simp only [Ty.findings]
      exact allRelate_singleton (h (.param p) u (.here ..))
  | .never, u, h => by
      cases u with
      | never => exact allRelate_nil R
      | _ => exact allRelate_singleton (Ty.clash_relates h)
  | .prim a, u, h => by
      simp only [Ty.findings]
      exact allRelate_ite (Ty.clash_relates h) fun _ => allRelate_nil R
  | .path p, u, h => by
      cases u with
      | path q =>
          exact Path.findings_relate (Ty.clash_relates h) p q fun a b hab => h a b (.path hab)
      | _ => exact allRelate_singleton (Ty.clash_relates h)
  | .dyn trait markers, u, h => by
      cases u with
      | dyn trait' markers' =>
          simp only [Ty.findings]
          refine allRelate_ite (Ty.clash_relates h) fun hlength => AllRelate.append ?trait ?markers
          case trait =>
            exact ItemRef.findings_relate (Ty.clash_relates h) trait trait' fun a b hab =>
              h a b (.trait hlength hab)
          case markers =>
            exact ItemRef.findingsOfList_relate (Ty.clash_relates h) markers markers'
              fun i r s hr hs a b hab => h a b (.marker hlength hr hs hab)
      | _ => exact allRelate_singleton (Ty.clash_relates h)
  | .erased origin index bounds, u, h => by
      cases u with
      | erased origin' index' bounds' =>
          simp only [Ty.findings]
          refine allRelate_ite (Ty.clash_relates h) fun hindex => ?_
          subst hindex
          exact Path.findings_relate (Ty.clash_relates h) origin origin' fun a b hab =>
            h a b (.origin hab)
      | _ => exact allRelate_singleton (Ty.clash_relates h)
  | .array elem size, u, h => by
      cases u with
      | array elem' size' =>
          exact (Ty.findings_relate elem elem' fun a b hab => h a b (.array hab)).append
            (Const.findings_relate (Ty.clash_relates h) size size')
      | _ => exact allRelate_singleton (Ty.clash_relates h)
  | .slice elem, u, h => by
      cases u with
      | slice elem' => exact Ty.findings_relate elem elem' fun a b hab => h a b (.slice hab)
      | _ => exact allRelate_singleton (Ty.clash_relates h)
  | .tuple elems, u, h => by
      cases u with
      | tuple elems' =>
          simp only [Ty.findings]
          exact allRelate_ite (Ty.clash_relates h) fun hlength =>
            Ty.findingsOfList_relate elems elems' fun i t u ht hu a b hab =>
              h a b (.tuple hlength ht hu hab)
      | _ => exact allRelate_singleton (Ty.clash_relates h)
  | .ref kind target, u, h => by
      cases u with
      | ref kind' target' =>
          simp only [Ty.findings]
          refine allRelate_ite (Ty.clash_relates h) fun hkind => ?_
          subst hkind
          exact Ty.findings_relate target target' fun a b hab => h a b (.ref hab)
      | _ => exact allRelate_singleton (Ty.clash_relates h)
  | .ptr mutable target, u, h => by
      cases u with
      | ptr mutable' target' =>
          simp only [Ty.findings]
          refine allRelate_ite (Ty.clash_relates h) fun hmutable => ?_
          subst hmutable
          exact Ty.findings_relate target target' fun a b hab => h a b (.ptr hab)
      | _ => exact allRelate_singleton (Ty.clash_relates h)
  | .fn args result, u, h => by
      cases u with
      | fn args' result' =>
          simp only [Ty.findings]
          refine allRelate_ite (Ty.clash_relates h) fun hlength => AllRelate.append ?args ?result
          case args =>
            exact Ty.findingsOfList_relate args args' fun i t u ht hu a b hab =>
              h a b (.arg hlength ht hu hab)
          case result =>
            exact Ty.findings_relate result result' fun a b hab => h a b (.result hlength hab)
      | _ => exact allRelate_singleton (Ty.clash_relates h)
termination_by structural t => t

theorem Path.findings_relate {R : Ty → Ty → Prop} {clash : Finding}
    (hclash : clash.Relates R) : ∀ p q : Path,
    (∀ a b, p.LinesUp q a b → R a b) → AllRelate R (p.findings clash q)
  | .item target, q, h => by
      cases q with
      | item target' =>
          exact ItemRef.findings_relate hclash target target' fun a b hab => h a b (.item hab)
      | _ => exact allRelate_singleton hclash
  | .inherent self name args, q, h => by
      cases q with
      | inherent self' name' args' =>
          simp only [Path.findings]
          refine allRelate_ite hclash fun hname => ?_
          subst hname
          exact (Ty.findings_relate self self' fun a b hab => h a b (.inherentSelf hab)).append
            (Args.findings_relate hclash args args' fun a b hab => h a b (.inherentArgs hab))
      | _ => exact allRelate_singleton hclash
  | .known self trait name args, q, h => by
      cases q with
      | known self' trait' name' args' =>
          simp only [Path.findings]
          refine allRelate_ite hclash fun hname => ?_
          subst hname
          exact ((Ty.findings_relate self self' fun a b hab => h a b (.knownSelf hab)).append
            (ItemRef.findings_relate hclash trait trait' fun a b hab =>
              h a b (.knownTrait hab))).append
            (Args.findings_relate hclash args args' fun a b hab => h a b (.knownArgs hab))
      | _ => exact allRelate_singleton hclash
  | .unknown self name args, q, h => by
      cases q with
      | unknown self' name' args' =>
          simp only [Path.findings]
          refine allRelate_ite hclash fun hname => ?_
          subst hname
          exact (Ty.findings_relate self self' fun a b hab => h a b (.unknownSelf hab)).append
            (Args.findings_relate hclash args args' fun a b hab => h a b (.unknownArgs hab))
      | _ => exact allRelate_singleton hclash
termination_by structural p => p

theorem ItemRef.findings_relate {R : Ty → Ty → Prop} {clash : Finding}
    (hclash : clash.Relates R) : ∀ r s : ItemRef,
    (∀ a b, r.LinesUp s a b → R a b) → AllRelate R (r.findings clash s)
  | ⟨name, args⟩, ⟨name', args'⟩, h => by
      simp only [ItemRef.findings]
      refine allRelate_ite hclash fun hname => ?_
      subst hname
      exact Args.findings_relate hclash args args' fun a b hab => h a b (.args hab)
termination_by structural r => r

theorem Args.findings_relate {R : Ty → Ty → Prop} {clash : Finding}
    (hclash : clash.Relates R) : ∀ args args' : Args,
    (∀ a b, args.LinesUp args' a b → R a b) → AllRelate R (args.findings clash args')
  | ⟨types, consts⟩, ⟨types', consts'⟩, h => by
      simp only [Args.findings]
      refine allRelate_ite hclash fun hlength => ?_
      exact (Ty.findingsOfList_relate types types' fun i t u ht hu a b hab =>
        h a b (.type hlength.1 hlength.2 ht hu hab)).append
        (Const.findingsOfList_relate hclash consts consts')
termination_by structural args => args

theorem Ty.findingsOfList_relate {R : Ty → Ty → Prop} : ∀ ts us : List Ty,
    (∀ (i : Nat) (t u : Ty), ts[i]? = some t → us[i]? = some u →
      ∀ a b, t.LinesUp u a b → R a b) →
    AllRelate R (Ty.findingsOfList ts us)
  | [], _, _ => allRelate_nil R
  | _ :: _, [], _ => allRelate_nil R
  | t :: ts, u :: us, h =>
      (Ty.findings_relate t u (h 0 t u rfl rfl)).append
        (Ty.findingsOfList_relate ts us fun i => h (i + 1))
termination_by structural ts => ts

theorem ItemRef.findingsOfList_relate {R : Ty → Ty → Prop} {clash : Finding}
    (hclash : clash.Relates R) : ∀ rs ss : List ItemRef,
    (∀ (i : Nat) (r s : ItemRef), rs[i]? = some r → ss[i]? = some s →
      ∀ a b, r.LinesUp s a b → R a b) →
    AllRelate R (ItemRef.findingsOfList clash rs ss)
  | [], _, _ => allRelate_nil R
  | _ :: _, [], _ => allRelate_nil R
  | r :: rs, s :: ss, h =>
      (ItemRef.findings_relate hclash r s (h 0 r s rfl rfl)).append
        (ItemRef.findingsOfList_relate hclash rs ss fun i => h (i + 1))
termination_by structural rs => rs

end

theorem Ty.findings_linesUp (t u : Ty) : AllRelate (t.LinesUp u) (t.findings u) :=
  Ty.findings_relate t u fun _ _ hab => hab

end Places

end Unerase
