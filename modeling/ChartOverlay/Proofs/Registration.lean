import ChartOverlay.Engine.Registry
import Mathlib.Logic.Basic

/-!
# Registration over any run

What a registry answers is known from the claims to names that were made before: those it starts with and those of
the steps, granted or not. The first claim to a name counts for good, and a claim that comes too late leaves no
trace. `run_settles` says so of every run.
-/

namespace ChartOverlay

/-! ### The order of names -/

namespace Text

theorem isAtMost_cons {c d : CodePoint} {s t : Text} :
    isAtMost (c :: s) (d :: t) ↔ c.code < d.code ∨ c.code = d.code ∧ isAtMost s t := by
  simp [isAtMost]

theorem isAtMost_total (s t : Text) : s.isAtMost t ∨ t.isAtMost s := by
  induction s generalizing t with
  | nil => exact Or.inl (by simp [isAtMost])
  | cons c s ih =>
    cases t with
    | nil => exact Or.inr (by simp [isAtMost])
    | cons d t =>
      rw [isAtMost_cons, isAtMost_cons]
      have := ih t
      rcases Nat.lt_trichotomy c.code d.code with below | same | above
      · exact Or.inl (Or.inl below)
      · exact this.imp (fun first => Or.inr ⟨same, first⟩) (fun second => Or.inr ⟨same.symm, second⟩)
      · exact Or.inr (Or.inl above)

theorem isAtMost_trans {s t u : Text} (first : s.isAtMost t) (second : t.isAtMost u) : s.isAtMost u := by
  induction s generalizing t u with
  | nil => simp [isAtMost]
  | cons c s ih =>
    cases t with
    | nil => simp [isAtMost] at first
    | cons d t =>
      cases u with
      | nil => simp [isAtMost] at second
      | cons e u =>
        rw [isAtMost_cons] at first second ⊢
        rcases first with below | ⟨same, first⟩
        · exact Or.inl (by omega)
        · rcases second with below | ⟨same', second⟩
          · exact Or.inl (by omega)
          · exact Or.inr ⟨same.trans same', ih first second⟩

end Text

namespace Registry

theorem perm_insertName (name : Text) (xs : List Text) : (insertName name xs).Perm (name :: xs) := by
  induction xs with
  | nil => exact List.Perm.refl _
  | cons x xs ih =>
    rw [insertName]
    split
    · exact List.Perm.refl _
    · exact (ih.cons x).trans (List.Perm.swap _ _ _)

theorem sorted_insertName {name : Text} {xs : List Text} (sorted : xs.Pairwise fun a b => a.isAtMost b) :
    (insertName name xs).Pairwise fun a b => a.isAtMost b := by
  induction xs with
  | nil => exact List.pairwise_singleton _ _
  | cons x xs ih =>
    obtain ⟨least, tail⟩ := List.pairwise_cons.mp sorted
    rw [insertName]
    split
    · rename_i before
      refine List.pairwise_cons.mpr ⟨?_, sorted⟩
      intro y member
      rcases List.mem_cons.mp member with rfl | member
      · exact before
      · exact Text.isAtMost_trans before (least y member)
    · rename_i after
      refine List.pairwise_cons.mpr ⟨?_, ih tail⟩
      intro y member
      rcases List.mem_cons.mp ((perm_insertName name xs).mem_iff.mp member) with rfl | member
      · exact (Text.isAtMost_total x y).resolve_right after
      · exact least y member

theorem perm_names (r : Registry) : r.names.Perm (r.entries.map (·.1)) := by
  unfold names
  induction r.entries.map (·.1) with
  | nil => exact List.Perm.refl _
  | cons x xs ih => exact (perm_insertName x _).trans (ih.cons x)

theorem sorted_names (r : Registry) : r.names.Pairwise fun a b => a.isAtMost b := by
  unfold names
  induction r.entries.map (·.1) with
  | nil => exact List.Pairwise.nil
  | cons x xs ih => exact sorted_insertName ih

/-! ### Claims -/

/-- The claim to a name that a step makes. -/
def Step.claim? : Step → Option (Text × Text)
  | .register name owner => some (name, owner)
  | .create _ => none
  | .list => none

/-- The claims to names that a registry starts with and that steps make on it. -/
def claims (start : Registry) (steps : List Step) : List (Text × Text) :=
  start.entries ++ steps.filterMap Step.claim?

def after (start : Registry) (steps : List Step) : Registry := steps.foldl (fun r s => (r.step s).1) start

section Claims
variable {claims : List (Text × Text)} {name owner first : Text}

/-- The owner of the first claim to a name. -/
def IsFirstClaim (claims : List (Text × Text)) (name first : Text) : Prop :=
  ∃ before later, claims = before ++ (name, first) :: later ∧ name ∉ before.map (·.1)

theorem not_mem_names_iff : name ∉ claims.map (·.1) ↔ ∀ claim ∈ claims, name != claim.1 := by
  simp only [bne_iff_ne, ne_eq, List.mem_map, not_exists, not_and]
  exact ⟨fun free claim member same => free claim member same.symm,
    fun other claim member same => other claim member same.symm⟩

theorem lookup_eq_some_iff : claims.lookup name = some first ↔ IsFirstClaim claims name first := by
  simp only [List.lookup_eq_some_iff, IsFirstClaim, not_mem_names_iff]

theorem lookup_eq_none_iff : claims.lookup name = none ↔ name ∉ claims.map (·.1) := by
  rw [not_mem_names_iff, List.lookup_eq_none_iff]

/-- A claim that comes after another to its name makes no difference. -/
theorem lookup_insert_late {before later : List (Text × Text)} {claim : Text × Text}
    (taken : claim.1 ∈ before.map (·.1)) (name : Text) :
    (before ++ claim :: later).lookup name = (before ++ later).lookup name := by
  rw [List.lookup_append, List.lookup_append]
  cases found : before.lookup name with
  | some first => rfl
  | none =>
    have other : (name == claim.1) = false := by
      rw [beq_eq_false_iff_ne]
      rintro rfl
      exact lookup_eq_none_iff.mp found taken
    rw [List.lookup_cons, other]

end Claims

/-! ### Steps -/

section Steps
variable {r : Registry} {name owner first : Text}

theorem step_register_taken (taken : r.find? name = some first) :
    r.step (.register name owner) = (r, .failed (.alreadyRegistered name first)) := by
  have refused : r.register name owner = .error (.alreadyRegistered name first) := by
    unfold register
    split
    · rename_i found
      obtain rfl := Option.some.inj (found.symm.trans taken)
      rfl
    · rename_i free
      rw [taken] at free
      cases free
  rw [step, refused]

theorem step_register_free (free : r.find? name = none) (owner : Text) :
    ∃ next, r.step (.register name owner) = (next, .owner owner) ∧ next.entries = r.entries ++ [(name, owner)] := by
  have granted : r.register name owner =
      .ok { entries := r.entries ++ [(name, owner)], distinct := distinct_append free owner } := by
    unfold register
    split
    · rename_i taken
      rw [free] at taken
      cases taken
    · rfl
  exact ⟨_, by rw [step, granted], rfl⟩

theorem step_create_taken (taken : r.find? name = some first) : r.step (.create name) = (r, .owner first) := by
  rw [step, create, taken]

theorem step_create_free (free : r.find? name = none) :
    r.step (.create name) = (r, .failed (.unknown name r.names)) := by
  rw [step, create, free]

/-- A step hands on the claims before it and its own. -/
theorem lookup_claims_step (r : Registry) (s : Step) (rest : List Step) (n : Text) :
    ((r.step s).1.claims rest).lookup n = (r.claims (s :: rest)).lookup n := by
  cases s with
  | list => rfl
  | create name =>
    cases found : r.find? name with
    | some first =>
      rw [step_create_taken found]
      rfl
    | none =>
      rw [step_create_free found]
      rfl
  | register name owner =>
    have own : r.claims (.register name owner :: rest) =
        r.entries ++ (name, owner) :: rest.filterMap Step.claim? := rfl
    cases found : r.find? name with
    | some first =>
      have taken : name ∈ r.entries.map (·.1) := by
        apply Decidable.byContradiction
        intro free
        rw [find?_eq_none_iff.mpr free] at found
        cases found
      rw [step_register_taken found, own, lookup_insert_late taken]
      rfl
    | none =>
      obtain ⟨next, granted, entries⟩ := step_register_free found owner
      rw [granted, own, claims, entries, List.append_assoc]
      rfl

theorem find?_after (start : Registry) (steps : List Step) (n : Text) :
    (start.after steps).find? n = (start.claims steps).lookup n := by
  -- over the steps, with any start: a step moves its claim from the steps to the registry
  induction steps generalizing start with
  | nil => simp [after, claims, find?]
  | cons s rest ih =>
    rw [← lookup_claims_step]
    exact ih _

theorem mem_names_after {start : Registry} {steps : List Step} {n : Text} :
    n ∈ (start.after steps).names ↔ n ∈ (start.claims steps).map (·.1) := by
  rw [(perm_names _).mem_iff, ← not_iff_not, ← find?_eq_none_iff, find?_after, lookup_eq_none_iff]

end Steps

/-! ### Runs -/

/-- The claimed names, each once and in order. -/
structure IsListing (claims : List (Text × Text)) (names : List Text) : Prop where
  members : ∀ n, n ∈ names ↔ n ∈ claims.map (·.1)
  sorted : names.Pairwise fun a b => a.isAtMost b ∧ a ≠ b

theorem isListing_after (start : Registry) (steps : List Step) :
    IsListing (start.claims steps) (start.after steps).names where
  members _ := mem_names_after
  sorted := by
    refine (sorted_names _).and ?_
    exact (perm_names _).nodup_iff.mpr (start.after steps).distinct

/-- The answer to a step by the claims before it. -/
inductive Settles (claims : List (Text × Text)) : Step → Answer → Prop
  | granted {name owner : Text} (free : name ∉ claims.map (·.1)) :
    Settles claims (.register name owner) (.owner owner)
  | refused {name owner first : Text} (taken : IsFirstClaim claims name first) :
    Settles claims (.register name owner) (.failed (.alreadyRegistered name first))
  | created {name first : Text} (taken : IsFirstClaim claims name first) :
    Settles claims (.create name) (.owner first)
  | unknown {name : Text} {names : List Text} (free : name ∉ claims.map (·.1)) (listing : IsListing claims names) :
    Settles claims (.create name) (.failed (.unknown name names))
  | listed {names : List Text} (listing : IsListing claims names) : Settles claims .list (.names names)

theorem step_settles (start : Registry) (before : List Step) (s : Step) :
    Settles (start.claims before) s ((start.after before).step s).2 := by
  have known := find?_after start before
  cases s with
  | list => exact .listed (isListing_after start before)
  | create name =>
    cases found : (start.after before).find? name with
    | some first =>
      rw [step_create_taken found]
      rw [known, lookup_eq_some_iff] at found
      exact .created found
    | none =>
      rw [step_create_free found]
      rw [known, lookup_eq_none_iff] at found
      exact .unknown found (isListing_after start before)
  | register name owner =>
    cases found : (start.after before).find? name with
    | some first =>
      rw [step_register_taken found]
      rw [known, lookup_eq_some_iff] at found
      exact .refused found
    | none =>
      obtain ⟨next, granted, _⟩ := step_register_free found owner
      rw [granted]
      rw [known, lookup_eq_none_iff] at found
      exact .granted found

theorem length_run (start : Registry) (steps : List Step) : (start.run steps).length = steps.length := by
  induction steps generalizing start with
  | nil => rfl
  | cons s rest ih => exact congrArg (· + 1) (ih _)

theorem run_at (start : Registry) (before : List Step) (s : Step) (rest : List Step) :
    (start.run (before ++ s :: rest))[before.length]? = some ((start.after before).step s).2 := by
  induction before generalizing start with
  | nil => rfl
  | cons x before ih => exact ih _

theorem after_append (start : Registry) (before rest : List Step) :
    start.after (before ++ rest) = (start.after before).after rest :=
  List.foldl_append

/-- Only a registration that is granted changes a registry. -/
theorem step_unchanged_or {r : Registry} (s : Step) : (r.step s).1 = r ∨
    ∃ name owner, s = .register name owner ∧ r.find? name = none ∧
      (r.step s).1.entries = r.entries ++ [(name, owner)] := by
  cases s with
  | list => exact Or.inl rfl
  | create name =>
    cases found : r.find? name with
    | some first => exact Or.inl (by rw [step_create_taken found])
    | none => exact Or.inl (by rw [step_create_free found])
  | register name owner =>
    cases found : r.find? name with
    | some first => exact Or.inl (by rw [step_register_taken found])
    | none =>
      obtain ⟨next, granted, entries⟩ := step_register_free found owner
      exact Or.inr ⟨name, owner, rfl, found, by rw [granted, entries]⟩

theorem IsFirstClaim.append {claims : List (Text × Text)} {name owner : Text} (free : name ∉ claims.map (·.1))
    (later : List (Text × Text)) : IsFirstClaim (claims ++ (name, owner) :: later) name owner :=
  ⟨claims, later, rfl, free⟩

end Registry

theorem intercalate_eq_nil_iff (names : List Text) :
    List.intercalate (", " : Text) names = [] ↔ names = [] ∨ names = [[]] := by
  rcases names with _ | ⟨x, _ | ⟨y, rest⟩⟩
  · simp
  · simp
  · have comma : (", " : Text) ≠ [] := by decide
    simp [List.intercalate, List.intersperse, comma]

/-- Names in a row are no text if there are none, or none but the empty one. -/
theorem RegistryError.listing_eq (names : List Text) : listing names =
    if names = [] ∨ names = [[]] then ("(none)" : Text) else List.intercalate ", " names := by
  have blank := intercalate_eq_nil_iff names
  unfold listing
  split
  · rename_i nothing
    rw [if_pos (blank.mp nothing)]
  · rename_i filled
    rw [if_neg (mt blank.mpr filled)]

namespace Registry

/-- Every answer of a run is settled by the claims before its step. A registration is refused exactly if the name has
been claimed, with the owner of the first claim, and only one that is granted changes the registry. It then holds for
the rest of the run. -/
theorem run_settles (start : Registry) (steps : List Step) :
    (start.run steps).length = steps.length ∧
    (∀ before s rest, steps = before ++ s :: rest → ∃ answer, (start.run steps)[before.length]? = some answer ∧
      Settles (start.claims before) s answer ∧
      (start.after (before ++ [s]) = start.after before ∨
        ∃ name owner, s = .register name owner ∧ answer = .owner owner ∧
          (start.after (before ++ [s])).entries = (start.after before).entries ++ [(name, owner)])) ∧
    (∀ before name owner between rest, steps = before ++ .register name owner :: between ++ .create name :: rest →
      (start.run steps)[before.length]? = some (.owner owner) →
      (start.run steps)[before.length + 1 + between.length]? = some (.owner owner)) ∧
    (∀ name first, RegistryError.message (.alreadyRegistered name first) =
      "Engine '" ++ name ++ "' is already registered by " ++ first) ∧
    ∀ name names, RegistryError.message (.unknown name names) = "Unknown engine '" ++ name ++ "'. Available: " ++
      if names = [] ∨ names = [[]] then ("(none)" : Text) else List.intercalate ", " names := by
  refine ⟨length_run start steps, ?_, ?_, fun _ _ => rfl, ?_⟩
  · rintro before s rest rfl
    refine ⟨_, run_at start before s rest, step_settles start before s, ?_⟩
    rw [after_append]
    rcases step_unchanged_or (r := start.after before) s with same | ⟨name, owner, rfl, free, entries⟩
    · exact Or.inl same
    · obtain ⟨next, granted, _⟩ := step_register_free free owner
      exact Or.inr ⟨name, owner, rfl, by rw [granted], entries⟩
  · rintro before name owner between rest rfl granted
    have claimed := step_settles start before (.register name owner)
    rw [List.append_assoc, List.cons_append, run_at, Option.some_inj] at granted
    rw [granted] at claimed
    cases claimed with
    | granted free =>
      have first : IsFirstClaim (start.claims (before ++ .register name owner :: between)) name owner := by
        rw [claims, List.filterMap_append, ← List.append_assoc]
        exact IsFirstClaim.append free _
      have position : before.length + 1 + between.length =
          (before ++ Step.register name owner :: between).length := by
        simp only [List.length_append, List.length_cons]
        omega
      have found : (start.after (before ++ .register name owner :: between)).find? name = some owner := by
        rw [find?_after, lookup_eq_some_iff]
        exact first
      rw [position, run_at, step_create_taken found]
  · intro name names
    rw [RegistryError.message, RegistryError.listing_eq]

/-- Two claims to one name, and a name that nobody claims. -/
def rivalSteps : List Step :=
  [.create "b", .register "b" "First", .register "b" "Second", .register "a" "Third", .create "b", .create "c", .list]

theorem run_settles_of_rivals :
    run { } rivalSteps = [.failed (.unknown "b" []), .owner "First", .failed (.alreadyRegistered "b" "First"),
      .owner "Third", .owner "First", .failed (.unknown "c" ["a", "b"]), .names ["a", "b"]] ∧
    (run { } rivalSteps)[4]? = some (.owner "First") ∧
    RegistryError.message (.unknown "c" ["a", "b"]) = "Unknown engine 'c'. Available: a, b" := by
  have ⟨_, _, kept, _, unknown⟩ := run_settles { } rivalSteps
  refine ⟨by decide, kept [.create "b"] "b" "First" [.register "b" "Second", .register "a" "Third"] _ rfl rfl, ?_⟩
  rw [unknown]
  decide

end Registry

end ChartOverlay
