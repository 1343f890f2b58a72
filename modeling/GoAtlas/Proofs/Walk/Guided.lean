import GoAtlas.Proofs.Walk.Parts
import GoAtlas.Proofs.Walk.Subject

/-!
# The recursion of a walk

What a walk does to an atlas is said of its single nodes: of a primitive, of a named type, of
a type that is walked as a node once its parts are, and of a method. The recursion through
the expressions is followed once, for any relation between walks that these are in
(`Guides`). What there is to walk is known beforehand, and leads to its own parts and
methods, so each law is only asked where it is needed.
-/

namespace GoAtlas.Walk

/-- A relation between walks that each node of a walk is in, for the types and the methods
that there are to walk. -/
structure Guides (lookup : Lookup) (expand : String → String → Walk → NodeId × Walk)
    (asked : TypeExpr → Prop) (required : Name → MethodExpr → Prop)
    (relates : Walk → Walk → Prop) : Prop where
  refl : ∀ walk, relates walk walk
  trans : ∀ {first second third}, relates first second → relates second third →
    relates first third
  basic : ∀ {spelling}, asked (.basic spelling) → ∀ walk, relates walk (walk.basic spelling).2
  named : ∀ {package name}, asked (.named package name) → ∀ walk,
    relates walk (expand package name walk).2
  /-- A type that is neither named nor basic, if its parts are walked and its methods. -/
  node : ∀ {expr : TypeExpr}, expr.isComposite = true → asked expr →
    (∀ walk, relates walk (describe lookup expand expr.canonicalName expr walk).2) → ∀ walk,
      relates walk (walk.node expr.canonicalName
        (describe lookup expand expr.canonicalName expr)).2
  method : ∀ {identity method}, required identity method →
    (∀ walk, relates walk (signatureOf lookup expand method.signature walk).2) → ∀ walk,
      relates walk (Walk.method lookup expand identity method walk).2
  askedPart : ∀ {expr : TypeExpr}, expr.isComposite = true → asked expr →
    ∀ part ∈ expr.parts, asked part
  askedMethod : ∀ {expr : TypeExpr}, expr.isComposite = true → asked expr →
    ∀ entry ∈ expr.required expr.canonicalName, required entry.1 entry.2
  askedSignature : ∀ {identity method}, required identity method →
    ∀ part ∈ method.signature.parts, asked part

namespace Guides

variable {lookup : Lookup} {expand : String → String → Walk → NodeId × Walk}
  {asked : TypeExpr → Prop} {required : Name → MethodExpr → Prop}
  {relates : Walk → Walk → Prop} (guides : Guides lookup expand asked required relates)

include guides

/-- A type is in the relation when its parts are. -/
theorem type_of {expr : TypeExpr}
    (describes : ∀ owner, (∀ part ∈ expr.parts, asked part) →
      (∀ entry ∈ expr.required owner, required entry.1 entry.2) → ∀ walk,
        relates walk (Walk.describe lookup expand owner expr walk).2)
    (mem : asked expr) (walk : Walk) :
    relates walk (Walk.type lookup expand none expr walk).2 := by
  by_cases composite : expr.isComposite = true
  · rw [type_eq_node lookup expand none composite, Option.getD_none]
    exact guides.node composite mem (describes _ (guides.askedPart composite mem)
      (guides.askedMethod composite mem)) walk
  · cases expr with
    | basic spelling => exact guides.basic mem walk
    | named package name => exact guides.named mem walk
    | _ => exact absurd rfl composite

mutual

theorem describe : ∀ (expr : TypeExpr) (owner : Name), (∀ part ∈ expr.parts, asked part) →
    (∀ entry ∈ expr.required owner, required entry.1 entry.2) → ∀ walk,
      relates walk (Walk.describe lookup expand owner expr walk).2
  | .basic _, _, _, _, walk | .named _ _, _, _, _, walk | .other _, _, _, _, walk =>
    guides.refl walk
  | .pointer elem, _, parts, _, walk | .slice elem, _, parts, _, walk
  | .array _ elem, _, parts, _, walk | .chan _ elem, _, parts, _, walk =>
    guides.type_of (describe elem) (parts elem List.mem_cons_self) walk
  | .map key elem, _, parts, _, walk =>
    guides.trans
      (guides.type_of (describe elem) (parts elem (.tail _ List.mem_cons_self)) walk)
      (guides.type_of (describe key) (parts key List.mem_cons_self) _)
  | .struct fields, _, parts, _, walk =>
    members fields (fun _ mem => parts _ (List.mem_map_of_mem mem)) walk
  | .func signature, _, parts, _, walk => signatureOf signature parts walk
  | .interface methods, _, _, all, walk =>
    methodsOf _ methods (fun _ mem => all _ (List.mem_map_of_mem mem)) ∅ walk

theorem types : ∀ exprs : List TypeExpr, (∀ expr ∈ exprs, asked expr) → ∀ walk,
    relates walk (Walk.types lookup expand exprs walk).2
  | [], _, walk => guides.refl walk
  | first :: rest, all, walk =>
    guides.trans (guides.type_of (describe first) (all first List.mem_cons_self) walk)
      (types rest (fun expr mem => all expr (.tail _ mem)) _)

theorem members : ∀ fields : List FieldExpr, (∀ field ∈ fields, asked field.type) → ∀ walk,
    relates walk (Walk.members lookup expand fields walk).2
  | [], _, walk => guides.refl walk
  | ⟨_, _, _, type, _⟩ :: rest, all, walk =>
    guides.trans (guides.type_of (describe type) (all _ List.mem_cons_self) walk)
      (members rest (fun field mem => all field (.tail _ mem)) _)

theorem receiverOf : ∀ receiver : Option TypeExpr, (∀ expr ∈ receiver.toList, asked expr) →
    ∀ walk, relates walk (Walk.receiverOf lookup expand receiver walk).2
  | none, _, walk => guides.refl walk
  | some receiver, all, walk =>
    guides.type_of (describe receiver) (all receiver List.mem_cons_self) walk

theorem signatureOf : ∀ signature : SignatureExpr, (∀ expr ∈ signature.parts, asked expr) →
    ∀ walk, relates walk (Walk.signatureOf lookup expand signature walk).2
  | ⟨receiver, params, results, _⟩, all, walk =>
    guides.trans
      (types params (fun expr mem => all expr (SignatureExpr.mem_parts.2 (.inl mem))) walk)
      (guides.trans
        (types results (fun expr mem => all expr (SignatureExpr.mem_parts.2 (.inr (.inl mem)))) _)
        (receiverOf receiver
          (fun expr mem => all expr (SignatureExpr.mem_parts.2 (.inr (.inr mem)))) _))

theorem methodsOf (ownerOf : MethodExpr → Name) : ∀ methods : List MethodExpr,
    (∀ method ∈ methods, required (methodName (ownerOf method) method.name) method) →
    ∀ known walk, relates walk (Walk.methodsOf lookup expand ownerOf methods known walk).2
  | [], _, _, walk => guides.refl walk
  | ⟨called, pos, signature⟩ :: rest, all, _, walk =>
    have first := all ⟨called, pos, signature⟩ List.mem_cons_self
    guides.trans
      (guides.method first (signatureOf signature (guides.askedSignature first)) walk)
      (methodsOf ownerOf rest (fun method mem => all method (.tail _ mem)) _ _)

end

theorem type {expr : TypeExpr} (mem : asked expr) (walk : Walk) :
    relates walk (Walk.type lookup expand none expr walk).2 :=
  guides.type_of (guides.describe expr) mem walk

end Guides

end GoAtlas.Walk
