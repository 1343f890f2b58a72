import GoAtlas.Proofs.Locator.Children

/-!
# Cleaned paths

By its text alone a path leads so many directories up and then down some names: its route
(`lexical_join`). Cleaning keeps the names. Of the steps up it keeps one or none, as their
number is odd or even (`route_clean`), since a `..` also removes a `..` that was kept before
it. From the root this makes no difference; a relative path still leads to the same place
exactly if it leads at most one directory up. Cleaning twice is cleaning once.
-/

namespace GoAtlas

/-- Where a path leads by its text: up so many directories, and then down the names. -/
structure Route where
  ups : Nat := 0
  names : Place := []

namespace Route

/-- The route with one more component. A `..` undoes the name before it. -/
def step (route : Route) : Component → Route
  | .root => {}
  | .current => route
  | .parent =>
    if route.names = [] then { route with ups := route.ups + 1 }
    else { route with names := route.names.dropLast }
  | .name text => { route with names := route.names ++ [text] }

/-- The place that the route leads to from a place. Above the root there is nothing. -/
def goal (route : Route) (place : Place) : Place :=
  place.take (place.length - route.ups) ++ route.names

theorem foldl_step_names (names : Place) (route : Route) :
    (names.map Component.name).foldl step route =
      { route with names := route.names ++ names } := by
  induction names generalizing route with
  | nil => rw [List.append_nil]; rfl
  | cons name rest ih =>
    rw [List.map_cons, List.foldl_cons, ih]
    simp [step]

/-- The components of a cleaned path with this route. -/
def kept (route : Route) : List Component :=
  List.replicate (route.ups % 2) .parent ++ route.names.map .name

end Route

namespace FilePath

/-- One component of a path, followed by its text: a `..` removes the name before it. -/
def lexicalStep (place : Place) : Component → Place
  | .root => []
  | .current => place
  | .parent => place.dropLast
  | .name text => place ++ [text]

/-- The place that a path from the root leads to by its text alone. -/
def lexical (path : FilePath) : Place :=
  path.components.foldl lexicalStep []

/-- The route of a path. -/
def route (path : FilePath) : Route :=
  path.components.foldl Route.step {}

/-- The components a path starts with. -/
def outset (path : FilePath) : List Component :=
  if path.isAbsolute then [.root] else []

variable {path base : FilePath} {component : Component}

theorem foldl_view {α : Type} {along : α → Component → α} {view : Route → α}
    (onward : ∀ route component, component ≠ .root →
      along (view route) component = view (route.step component)) {steps : List Component}
    (plain : ∀ step ∈ steps, step ≠ .root) (route : Route) :
    steps.foldl along (view route) = view (steps.foldl Route.step route) := by
  induction steps generalizing route with
  | nil => rfl
  | cons step rest ih =>
    rw [List.foldl_cons, onward _ _ (plain step List.mem_cons_self)]
    exact ih (fun other mem => plain other (List.mem_cons_of_mem _ mem)) _

/-- What is worked out along a path is worked out from its route, if each step goes on with
the route. -/
theorem foldl_components {α : Type} {along : α → Component → α} (view : Route → α)
    (onward : ∀ route component, component ≠ .root →
      along (view route) component = view (route.step component)) {state : α}
    (start : path.outset.foldl along state = view {}) :
    path.components.foldl along state = view path.route := by
  have plain : ∀ step ∈ path.steps, step ≠ .root := by
    rintro step mem rfl
    cases isStep_of_mem_steps mem
  unfold outset at start
  unfold route components
  rw [List.foldl_append, List.foldl_append]
  split
  · next absolute =>
    rw [if_pos absolute] at start
    rw [start]
    exact foldl_view onward plain _
  · next relative =>
    rw [if_neg relative, List.foldl_nil] at start
    rw [start]
    split
    · rw [List.foldl_cons, onward _ _ (by rintro ⟨⟩)]
      exact foldl_view onward plain _
    · exact foldl_view onward plain _

/-! ## Routes -/

/-- A step leads on from where the route has led. -/
theorem lexicalStep_goal (route : Route) (place : Place) (step : component ≠ .root) :
    lexicalStep (route.goal place) component = (route.step component).goal place := by
  cases component with
  | root => exact absurd rfl step
  | current => rfl
  | name text => exact List.append_assoc ..
  | parent =>
    simp only [lexicalStep, Route.step]
    by_cases none : route.names = []
    · rw [if_pos none, Route.goal, Route.goal, none, List.append_nil, List.append_nil,
        List.dropLast_eq_take, List.take_take, List.length_take]
      refine congrArg (place.take ·) ?_
      show _ = place.length - (route.ups + 1)
      omega
    · rw [if_neg none, Route.goal, Route.goal, List.dropLast_append_of_ne_nil none]

/-- A step is cleaned as the route goes on: two steps up undo each other. -/
theorem cleanStep_kept (route : Route) {start : List Component}
    (first : start = [] ∨ start = [.root]) (step : component ≠ .root) :
    cleanStep (start ++ route.kept) component = start ++ (route.step component).kept := by
  cases component with
  | root => exact absurd rfl step
  | current => rfl
  | name text =>
    simp only [cleanStep, Route.step, Route.kept, List.append_assoc, List.map_append,
      List.map_singleton]
  | parent =>
    simp only [Route.step]
    by_cases none : route.names = []
    · rw [if_pos none, Route.kept, Route.kept, none]
      rcases Nat.mod_two_eq_zero_or_one route.ups with even | odd
      · have next : (route.ups + 1) % 2 = 1 := by omega
        rw [even, next]
        rcases first with rfl | rfl <;> rfl
      · have next : (route.ups + 1) % 2 = 0 := by omega
        rw [odd, next]
        rcases first with rfl | rfl <;> rfl
    · obtain ⟨names, last, split⟩ : ∃ names last, route.names = names ++ [last] :=
        ⟨_, _, (List.dropLast_concat_getLast none).symm⟩
      rw [if_neg none, Route.kept, Route.kept, split, List.dropLast_concat, List.map_append,
        ← List.append_assoc, ← List.append_assoc, List.append_assoc start]
      simp [cleanStep]

/-- A path leads where its route leads. -/
theorem foldl_lexicalStep (path : FilePath) (place : Place) :
    path.components.foldl lexicalStep place =
      path.route.goal (if path.isAbsolute then [] else place) := by
  refine foldl_components (fun route => route.goal _)
    (fun route component => lexicalStep_goal route _) ?_
  unfold outset
  split
  · rfl
  · simp [Route.goal]

/-- A cleaned path is written with the components that are kept of its route. -/
theorem clean_eq (path : FilePath) :
    path.clean = ofComponents (path.outset ++ path.route.kept) := by
  have first : path.outset = [] ∨ path.outset = [.root] := by
    unfold outset
    split
    · exact .inr rfl
    · exact .inl rfl
  refine congrArg ofComponents (foldl_components (fun route => path.outset ++ route.kept)
    (fun route component => cleanStep_kept route first) ?_)
  rcases first with first | first <;> · rw [first]; rfl

theorem named_route (path : FilePath) : path.route.names.Named := by
  refine List.foldlRecOn (motive := fun route : Route => route.names.Named) _ _ Place.named_nil
    fun route named component mem => ?_
  cases component with
  | root => exact Place.named_nil
  | current => exact named
  | parent =>
    simp only [Route.step]
    split
    · exact named
    · exact named.dropLast
  | name text => exact named.append (isName_of_mem_components mem)

/-! ## Cleaned paths -/

/-- Names after a `..` add themselves to its components. -/
theorem components_up {up : String} (ne : up ≠ "") {names : Place} (named : names.Named) :
    (⟨String.intercalate "/" (up :: names)⟩ : FilePath).components =
      (⟨up⟩ : FilePath).components ++ names.map .name := by
  cases names with
  | nil => rw [String.intercalate_singleton, List.map_nil, List.append_nil]
  | cons name rest =>
    have nonempty : up.toList ≠ [] := mt String.toList_eq_nil_iff.1 ne
    have text : (⟨String.intercalate "/" (up :: name :: rest)⟩ : FilePath).text.toList =
        up.toList ++ '/' :: (String.intercalate "/" (name :: rest)).toList := by
      show (String.intercalate "/" (up :: name :: rest)).toList = _
      rw [String.intercalate_cons_cons, String.toList_append, String.toList_append,
        List.append_assoc]
      rfl
    have parts := @components_of_slash ⟨String.intercalate "/" (up :: name :: rest)⟩ ⟨up⟩ _ _ text
      (.inl ⟨rfl, nonempty⟩)
    rw [parts, Place.filterMap_splitOn named]

/-- What is kept of a route is read back from its text. -/
theorem components_clean (path : FilePath) :
    path.clean.components = path.outset ++ path.route.kept := by
  have named := path.named_route
  rw [clean_eq, Route.kept, outset]
  generalize path.route.names = names at named
  have texts := Component.map_text_name names
  rcases Nat.mod_two_eq_zero_or_one path.route.ups with even | odd
  · rw [even]
    split
    · show (⟨"/" ++ String.intercalate "/" ((names.map Component.name).map _)⟩ :
        FilePath).components = _
      rw [texts]
      exact Place.components_path named
    · have text : ofComponents (names.map .name) = ⟨String.intercalate "/" names⟩ := by
        cases names with
        | nil => rfl
        | cons name rest =>
          exact congrArg (fun names => FilePath.mk (String.intercalate "/" names)) texts
      exact (congrArg components text).trans (Place.components_intercalate named)
  · rw [odd]
    split
    · have text : "/" ++ String.intercalate "/" (".." :: names) =
          String.intercalate "/" ("/.." :: names) := by
        cases names with
        | nil => rfl
        | cons name rest => simp [String.intercalate_cons_cons, ← String.append_assoc]
      show (⟨"/" ++ String.intercalate "/" (".." :: (names.map Component.name).map _)⟩ :
        FilePath).components = _
      rw [texts, text]
      exact components_up (by decide) named
    · show (⟨String.intercalate "/" (".." :: (names.map Component.name).map _)⟩ :
        FilePath).components = _
      rw [texts]
      exact components_up (by decide) named

theorem isAbsolute_clean (path : FilePath) : path.clean.isAbsolute = path.isAbsolute := by
  have components := path.components_clean
  rw [outset] at components
  cases absolute : path.isAbsolute with
  | true =>
    rw [absolute, if_pos rfl] at components
    exact isAbsolute_of_components components
  | false =>
    rw [absolute, if_neg Bool.false_ne_true] at components
    refine eq_false_of_ne_true fun absolute => ?_
    rw [components_of_isAbsolute absolute] at components
    have root : Component.root ∈ path.route.kept := by
      rw [← List.nil_append path.route.kept, ← components]
      exact List.mem_cons_self
    simp [Route.kept] at root

/-- Cleaning keeps the names of a route, and of the steps up one if their number is odd. -/
theorem route_clean (path : FilePath) :
    path.clean.route = ⟨path.route.ups % 2, path.route.names⟩ := by
  have start : path.outset.foldl Route.step {} = {} := by
    unfold outset
    split <;> rfl
  rw [route, components_clean, List.foldl_append, start, Route.kept, List.foldl_append]
  rcases Nat.mod_two_eq_zero_or_one path.route.ups with even | odd
  · rw [even]
    exact Route.foldl_step_names _ _
  · rw [odd]
    exact Route.foldl_step_names _ _

theorem lexical_join (absolute : base.isAbsolute = true) (path : FilePath) :
    (base.join path.text).lexical =
      path.route.goal (if path.isAbsolute then [] else base.lexical) := by
  rw [← foldl_lexicalStep, lexical]
  cases below : path.isAbsolute with
  | true =>
    rw [join_absolute below, components_of_isAbsolute below]
    rfl
  | false =>
    have ne : base.text ≠ "" := by
      rintro empty
      rw [isAbsolute, empty] at absolute
      cases absolute
    rw [components_join ne below, List.foldl_append]
    show path.steps.foldl lexicalStep base.lexical = _
    rw [components, below, if_neg Bool.false_ne_true, List.foldl_append]
    split <;> rfl

/-- Cleaning twice is cleaning once. A cleaned path leads to the same place as the path, from
every directory, if the path starts at the root or leads at most one directory up. Any other
path leads elsewhere once it is cleaned, from every directory that is deep enough for it. -/
theorem clean_keeps_goal (path base : FilePath) (absolute : base.isAbsolute = true) :
    path.clean.clean = path.clean ∧
      (path.isAbsolute = true ∨ path.route.ups ≤ 1 →
        (base.join path.clean.text).lexical = (base.join path.text).lexical) ∧
      (path.isAbsolute = false → 1 < path.route.ups → path.route.ups ≤ base.lexical.length →
        (base.join path.clean.text).lexical ≠ (base.join path.text).lexical) := by
  rw [lexical_join absolute, lexical_join absolute, isAbsolute_clean, route_clean]
  refine ⟨?_, ?_, fun relative many deep same => ?_⟩
  · rw [clean_eq path.clean, outset, isAbsolute_clean, route_clean, Route.kept, Nat.mod_mod]
    exact (clean_eq path).symm
  · rintro (start | few)
    · simp [start, Route.goal]
    · rw [Nat.mod_eq_of_lt (Nat.lt_succ_of_le few)]
  · -- the cleaned path leads at most one directory up, so it ends further down
    rw [relative, if_neg Bool.false_ne_true] at same
    have lengths := congrArg List.length (List.append_cancel_right same)
    rw [List.length_take, List.length_take] at lengths
    dsimp only at lengths
    omega

/-- Down and up again, and one directory further up, from a directory two deep. -/
theorem clean_keeps_goal_sibling :
    let path : FilePath := ⟨"./a/../../c//d"⟩
    let base : FilePath := ⟨"/x/y"⟩
    base.isAbsolute = true ∧ path.clean = ⟨"../c/d"⟩ ∧ path.clean.clean = path.clean ∧
      (base.join path.clean.text).lexical = (base.join path.text).lexical := by
  intro path base
  obtain ⟨again, same, -⟩ := clean_keeps_goal path base (by decide)
  exact ⟨by decide, by decide +kernel, again, same (.inr (by decide +kernel))⟩

/-- Two steps up are cleaned to nothing, and lead nowhere then. -/
theorem clean_two_up :
    let path : FilePath := ⟨"../.."⟩
    let base : FilePath := ⟨"/x/y"⟩
    path.components = [.parent, .parent] ∧ base.components = [.root, .name "x", .name "y"] ∧
      path.clean = ⟨""⟩ ∧ (base.join path.text).lexical = [] ∧
      (base.join path.clean.text).lexical = ["x", "y"] := by
  decide +kernel

end FilePath

end GoAtlas
