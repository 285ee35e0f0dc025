import Mathlib.Data.List.Forall2

/-!
Computations that succeed. A sequence succeeds if and only if each of its parts does, with the result of
one handed to the next.
-/

namespace OnePass

section Except

variable {ε α β : Type} {x : Except ε α} {a : α} {b : β}

theorem bind_eq_ok {f : α → Except ε β} : x >>= f = .ok b ↔ ∃ a, x = .ok a ∧ f a = .ok b := by
  cases x with
  | ok a => exact ⟨fun h => ⟨a, rfl, h⟩, fun ⟨_, ha, h⟩ => Except.ok.inj ha ▸ h⟩
  | error d => exact ⟨nofun, nofun⟩

theorem map_eq_ok {f : α → β} : f <$> x = .ok b ↔ ∃ a, x = .ok a ∧ f a = b := by
  cases x with
  | ok a => exact ⟨fun h => ⟨a, rfl, Except.ok.inj h⟩, fun ⟨_, ha, h⟩ => by cases ha; exact congrArg _ h⟩
  | error d => exact ⟨nofun, nofun⟩

theorem pure_eq_ok {a' : α} : (pure a : Except ε α) = .ok a' ↔ a = a' :=
  ⟨Except.ok.inj, congrArg _⟩

/-- A test that goes on to another one only if it comes out true. -/
theorem and_eq_ok {x y : Except ε Bool} :
    (do if ← x then y else return false) = .ok true ↔ x = .ok true ∧ y = .ok true := by
  rw [bind_eq_ok]
  constructor
  · rintro ⟨first, hx, hy⟩
    cases first with
    | true => exact ⟨hx, hy⟩
    | false => cases hy
  · rintro ⟨hx, hy⟩
    exact ⟨true, hx, hy⟩

theorem mapM_eq_ok {f : α → Except ε β} {as : List α} {bs : List β} :
    as.mapM f = .ok bs ↔ List.Forall₂ (fun a b => f a = .ok b) as bs := by
  induction as generalizing bs with
  | nil =>
      rw [List.mapM_nil, pure_eq_ok, List.forall₂_nil_left_iff]
      exact eq_comm
  | cons a as ih =>
      simp only [List.mapM_cons, bind_eq_ok, pure_eq_ok, ih, List.forall₂_cons_left_iff]
      constructor
      · rintro ⟨b, hb, bs, hbs, rfl⟩
        exact ⟨b, bs, hb, hbs, rfl⟩
      · rintro ⟨b, bs, hb, hbs, rfl⟩
        exact ⟨b, hb, bs, hbs, rfl⟩

theorem option_mapM_eq_ok {f : α → Except ε β} {o : Option α} {o' : Option β}
    (h : o.mapM f = .ok o') : List.Forall₂ (fun a b => f a = .ok b) o.toList o'.toList := by
  cases o with
  | none =>
      cases h
      exact .nil
  | some a =>
      obtain ⟨b, hb, rfl⟩ := map_eq_ok.mp h
      exact .cons hb .nil

/-! ### Failure -/

theorem map_eq_error {f : α → β} {d : ε} (h : f <$> x = .error d) : x = .error d := by
  cases x with
  | error d' => exact congrArg Except.error (Except.error.inj h)
  | ok => cases h

theorem forM_eq_ok {f : α → Except ε Unit} {as : List α} (h : forM as f = .ok ()) : ∀ a ∈ as, f a = .ok () := by
  induction as with
  | nil => nofun
  | cons a as ih =>
      rw [List.forM_cons] at h
      obtain ⟨_, ha, has⟩ := bind_eq_ok.mp h
      exact List.forall_mem_cons.mpr ⟨ha, ih has⟩

/-- A loop ends at the first thing that it fails for. -/
theorem forM_eq_error {f : α → Except ε Unit} {as : List α} {d : ε} (h : forM as f = .error d) :
    ∃ front a rest, as = front ++ a :: rest ∧ (∀ b ∈ front, f b = .ok ()) ∧ f a = .error d := by
  induction as with
  | nil => cases h
  | cons a as ih =>
      rw [List.forM_cons] at h
      cases ha : f a with
      | error d' =>
          rw [ha] at h
          obtain rfl := Except.error.inj h
          exact ⟨[], a, as, rfl, nofun, ha⟩
      | ok =>
          rw [ha] at h
          obtain ⟨front, b, rest, rfl, hfront, hb⟩ := ih h
          exact ⟨a :: front, b, rest, rfl, List.forall_mem_cons.mpr ⟨ha, hfront⟩, hb⟩

/-! ### Success or failure -/

theorem toOption_ok (a : α) : (.ok a : Except ε α).toOption = some a := rfl

theorem toOption_error (d : ε) : (.error d : Except ε α).toOption = none := rfl

theorem toOption_eq_some : x.toOption = some a ↔ x = .ok a := by
  cases x with
  | ok b => rw [toOption_ok, Option.some.injEq, Except.ok.injEq]
  | error d => simp only [toOption_error, reduceCtorEq]

theorem toOption_bind (x : Except ε α) (f : α → Except ε β) :
    (x >>= f).toOption = x.toOption.bind fun a => (f a).toOption := by
  cases x <;> rfl

theorem filterAuxM_toOption (p : α → Except ε Bool) (as acc : List α) :
    (as.filterAuxM p acc).toOption =
      if as.all (fun a => (p a).toOption.isSome) then
        some ((as.filter fun a => (p a).toOption == some true).reverse ++ acc)
      else none := by
  induction as generalizing acc with
  | nil => rfl
  | cons a as ih =>
      rw [List.filterAuxM, toOption_bind]
      rcases hp : p a with d | keep
      · simp [hp, toOption_error]
      · cases keep <;> simp [hp, toOption_ok, ih]

/-- A test that may fail keeps what it is true of, unless it fails of something. -/
theorem filterM_toOption (p : α → Except ε Bool) (as : List α) :
    (as.filterM p).toOption =
      if as.all (fun a => (p a).toOption.isSome) then
        some (as.filter fun a => (p a).toOption == some true)
      else none := by
  rw [List.filterM, toOption_bind, filterAuxM_toOption]
  split <;> simp [pure, Except.pure, toOption_ok]

theorem filterM_eq_ok {p : α → Except ε Bool} {as bs : List α} (h : as.filterM p = .ok bs) :
    (∀ a ∈ as, ∃ keep, p a = .ok keep) ∧ ∀ b, b ∈ bs ↔ b ∈ as ∧ p b = .ok true := by
  rw [← toOption_eq_some, filterM_toOption, Option.ite_none_right_eq_some] at h
  obtain ⟨each, heq⟩ := h
  obtain rfl := Option.some.inj heq
  constructor
  · intro a ha
    obtain ⟨keep, hkeep⟩ := Option.isSome_iff_exists.mp (List.all_eq_true.mp each a ha)
    exact ⟨keep, toOption_eq_some.mp hkeep⟩
  · intro b
    rw [List.mem_filter, beq_iff_eq, toOption_eq_some]

end Except

theorem exists_getElem?_of_forall₂ {α β : Type} {R : α → β → Prop} {as : List α} {bs : List β} {i : Nat}
    {b : β} (h : List.Forall₂ R as bs) (hb : bs[i]? = some b) : ∃ a, as[i]? = some a ∧ R a b := by
  induction h generalizing i with
  | nil => cases hb
  | cons hr _ ih =>
      cases i with
      | zero => exact ⟨_, rfl, Option.some.inj hb ▸ hr⟩
      | succ i => exact ih hb

theorem exists_mem_of_forall₂ {α β : Type} {R : α → β → Prop} {as : List α} {bs : List β} {b : β}
    (h : List.Forall₂ R as bs) (hb : b ∈ bs) : ∃ a ∈ as, R a b := by
  obtain ⟨i, hi⟩ := List.mem_iff_getElem?.mp hb
  obtain ⟨a, ha, hr⟩ := exists_getElem?_of_forall₂ h hi
  exact ⟨a, List.mem_of_getElem? ha, hr⟩

end OnePass
