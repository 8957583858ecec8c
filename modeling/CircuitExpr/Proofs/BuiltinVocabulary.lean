/-
# Looking up the built-in functions

Of several functions that were registered under one name the last is found
(`function?_registerAll`).  The built-in functions have names of their own, in small
letters, so each of them is found under its name in any case, and nothing else is found.

Each of them that has real values has one for all arguments that its arity admits:
what is asked for is never missing.
-/

import Mathlib
import CircuitExpr.Vocabulary.Builtin

namespace CircuitExpr

/-! ### Values for all arguments -/

namespace NamedFunction

variable {ρ : Type}

/-- If the function has real values, it has one for all arguments that its arity
admits. -/
def RealTotal (f : NamedFunction ρ) : Prop :=
  ∀ g, f.real = some g → ∀ fudge args, args.length = f.arity → ∃ x, g fudge args = some x

/-- A function of one number has a value for one argument. -/
theorem realTotal_one {name : String} {f : ρ → ρ} {complex : Option (Implementation ρ (Complex ρ))}
    {rule : Option (Rule ρ)} : RealTotal ⟨name, 1, some (.unary f), complex, rule⟩ := by
  rintro _ ⟨⟩ fudge args hargs
  match args, hargs with
  | [x], _ => exact ⟨f x, rfl⟩

/-- A function of two numbers has a value for two arguments. -/
theorem realTotal_two {name : String} {f : ρ → ρ → ρ}
    {complex : Option (Implementation ρ (Complex ρ))} {rule : Option (Rule ρ)} :
    RealTotal ⟨name, 2, some (.binary f), complex, rule⟩ := by
  rintro _ ⟨⟩ fudge args hargs
  match args, hargs with
  | [x, y], _ => exact ⟨f x y, rfl⟩

/-- A function guarded against division by zero has a value for two arguments. -/
theorem realTotal_guarded {name : String} {f : ρ → ρ → ρ → ρ}
    {complex : Option (Implementation ρ (Complex ρ))} {rule : Option (Rule ρ)} :
    RealTotal ⟨name, 2, some (.guarded f), complex, rule⟩ := by
  rintro _ ⟨⟩ fudge args hargs
  match args, hargs with
  | [x, y], _ => exact ⟨f fudge x y, rfl⟩

/-- A function of three numbers has a value for three arguments. -/
theorem realTotal_three {name : String} {f : ρ → ρ → ρ → ρ}
    {complex : Option (Implementation ρ (Complex ρ))} {rule : Option (Rule ρ)} :
    RealTotal ⟨name, 3, some (.ternary f), complex, rule⟩ := by
  rintro _ ⟨⟩ fudge args hargs
  match args, hargs with
  | [x, y, z], _ => exact ⟨f x y z, rfl⟩

/-- A function without values on real numbers promises none. -/
theorem realTotal_none {name : String} {arity : Nat}
    {complex : Option (Implementation ρ (Complex ρ))} {rule : Option (Rule ρ)} :
    RealTotal ⟨name, arity, none, complex, rule⟩ := by
  rintro _ ⟨⟩

end NamedFunction

namespace Vocabulary

variable {ρ : Type}

/-! ### Registered functions -/

/-- **Of the functions registered under a name the last is found.** -/
theorem function?_registerAll (w : Vocabulary ρ) (fs : List (NamedFunction ρ)) (name : String) :
    (w.registerAll fs).function? name =
      (fs.reverse.find? fun f => Text.lowercase f.name = Text.lowercase name).or
        (w.function? name) := by
  induction fs generalizing w with
  | nil => rfl
  | cons f fs ih =>
    have hcons : w.registerAll (f :: fs) = (w.register f).registerAll fs := rfl
    rw [hcons, ih, function?_register, List.reverse_cons, List.find?_append, Option.or_assoc]
    congr 1
    by_cases h : Text.lowercase f.name = Text.lowercase name <;> simp [h]

/-- A function is found by its name, and its number of arguments must fit. -/
theorem functionOf?_eq_some {w : Vocabulary ρ} {name : String} {arity : Nat}
    {f : NamedFunction ρ} :
    w.functionOf? name arity = some f ↔ w.function? name = some f ∧ f.arity = arity := by
  simp [functionOf?, Option.filter_eq_some_iff]

variable [Scalar ρ]

/-- The names of the built-in functions, in the order of their table. -/
theorem names_builtinFunctions : (builtinFunctions : List (NamedFunction ρ)).map (·.name) =
    ["exp", "log", "ln", "log10", "sqrt", "hypot", "pow", "pwr", "sin", "cos", "tan", "asin",
      "acos", "atan", "sinh", "cosh", "tanh", "asinh", "acosh", "atanh", "atan2", "abs", "sgn",
      "floor", "ceil", "round", "trunc", "min", "max", "limit", "ddt", "idt"] :=
  rfl

/-- The names of the built-in functions are in small letters. -/
theorem lowercase_name {f : NamedFunction ρ} (hf : f ∈ builtinFunctions) :
    Text.lowercase f.name = f.name := by
  have hall : ∀ name ∈ (builtinFunctions : List (NamedFunction ρ)).map (·.name),
      Text.lowercase name = name := by
    rw [names_builtinFunctions]
    decide +kernel
  exact hall f.name (List.mem_map_of_mem hf)

/-- The built-in functions have names of their own. -/
theorem eq_of_name_eq {f g : NamedFunction ρ} (hf : f ∈ builtinFunctions)
    (hg : g ∈ builtinFunctions) (h : f.name = g.name) : f = g := by
  have hnodup : ((builtinFunctions : List (NamedFunction ρ)).map (·.name)).Nodup := by
    rw [names_builtinFunctions]
    decide
  exact List.inj_on_of_nodup_map hnodup hf hg h

/-- What is found is a built-in function of this name. -/
theorem builtin_function?_eq_some {name : String} {f : NamedFunction ρ} :
    (builtin : Vocabulary ρ).function? name = some f ↔
      f ∈ builtinFunctions ∧ f.name = Text.lowercase name := by
  have hbuiltin : (builtin : Vocabulary ρ).function? name =
      builtinFunctions.reverse.find? fun f => Text.lowercase f.name = Text.lowercase name := by
    have h := function?_registerAll (empty : Vocabulary ρ) builtinFunctions name
    rwa [show (empty : Vocabulary ρ).function? name = none from rfl, Option.or_none] at h
  rw [hbuiltin]
  constructor
  · intro h
    have hf := List.mem_reverse.mp (List.mem_of_find?_eq_some h)
    have hname : Text.lowercase f.name = Text.lowercase name := by
      simpa using List.find?_some h
    exact ⟨hf, (lowercase_name hf).symm.trans hname⟩
  · rintro ⟨hf, hname⟩
    have hlower : Text.lowercase f.name = Text.lowercase name := (lowercase_name hf).trans hname
    cases hfind : (builtinFunctions : List (NamedFunction ρ)).reverse.find? fun f =>
        decide (Text.lowercase f.name = Text.lowercase name) with
    | none =>
      have hne := List.find?_eq_none.mp hfind f (List.mem_reverse.mpr hf)
      exact absurd hlower (by simpa using hne)
    | some g =>
      have hg := List.mem_reverse.mp (List.mem_of_find?_eq_some hfind)
      have hgname : Text.lowercase g.name = Text.lowercase name := by
        simpa using List.find?_some hfind
      rw [eq_of_name_eq hg hf ((lowercase_name hg).symm.trans (hgname.trans hname.symm))]

/-- **Every built-in function is found under its name, and nothing else is.** -/
theorem builtin_functionOf?_eq_some {name : String} {arity : Nat} {f : NamedFunction ρ} :
    (builtin : Vocabulary ρ).functionOf? name arity = some f ↔
      f ∈ builtinFunctions ∧ f.name = Text.lowercase name ∧ f.arity = arity := by
  rw [functionOf?_eq_some, builtin_function?_eq_some, and_assoc]

/-- The built-in constants are called `pi` and `e`. -/
theorem builtin_constant?_eq_none {name : String} :
    (builtin : Vocabulary ρ).constant? name = none ↔
      Text.lowercase name ≠ "pi" ∧ Text.lowercase name ≠ "e" := by
  have hconstants : (builtin : Vocabulary ρ).constants =
      (OrderedMap.empty.insert (Text.lowercase "pi") _).insert (Text.lowercase "e") _ := rfl
  have hpi : Text.lowercase "pi" = "pi" := by decide +kernel
  have he : Text.lowercase "e" = "e" := by decide +kernel
  rw [constant?, hconstants, hpi, he, OrderedMap.get?_insert, OrderedMap.get?_insert,
    OrderedMap.get?_empty]
  split_ifs with h h'
  · simp [← h]
  · simp [← h']
  · exact iff_of_true rfl ⟨Ne.symm h', Ne.symm h⟩

/-- **No built-in function misses an argument.** -/
theorem realTotal_of_mem_builtinFunctions {f : NamedFunction ρ} (hf : f ∈ builtinFunctions) :
    f.RealTotal := by
  revert f
  simp only [builtinFunctions, roundings, List.cons_append, List.nil_append,
    List.forall_mem_cons]
  and_intros
  all_goals first
    | exact NamedFunction.realTotal_one
    | exact NamedFunction.realTotal_two
    | exact NamedFunction.realTotal_guarded
    | exact NamedFunction.realTotal_three
    | exact NamedFunction.realTotal_none
    | exact nofun

end Vocabulary
end CircuitExpr
