import Mathlib.Data.List.Basic
import Mathlib.Data.List.Induction

/-! Records that are filled in entry by entry: a field collects what the entries add to it, or
keeps what the latest entry has set. -/

namespace Fields

variable {σ α β γ : Type}

/-- What the latest entry with a value says, or else what there was before. -/
def latest (g : α → Option β) (start : β) (xs : List α) : β := (xs.filterMap g).getLast?.getD start

theorem latest_concat (g : α → Option β) (start : β) (xs : List α) (x : α) :
    latest g start (xs ++ [x]) = (g x).getD (latest g start xs) := by
  cases h : g x <;> simp [latest, List.filterMap_append, h]

theorem latest_filterMap (e : γ → Option α) (g : α → Option β) (start : β) (xs : List γ) :
    latest g start (xs.filterMap e) = latest (fun x => (e x).bind g) start xs := by
  rw [latest, latest, List.filterMap_filterMap]

theorem flatMap_filterMap (e : γ → Option α) (f : α → List β) (xs : List γ) :
    (xs.filterMap e).flatMap f = xs.flatMap fun x => ((e x).map f).getD [] := by
  induction xs with
  | nil => rfl
  | cons x xs ih => cases hx : e x <;> simp [hx, ih]

theorem foldlM_put (put : σ → α → σ) (e : γ → Option α) (s : σ) (xs : List γ) :
    xs.foldlM (fun s x => (e x).map (put s)) s = (xs.mapM e).map fun us => us.foldl put s := by
  induction xs generalizing s with
  | nil => rfl
  | cons x xs ih =>
    simp only [List.foldlM_cons, List.mapM_cons]
    cases e x with
    | none => rfl
    | some u =>
      simp only [Option.map_some, Option.bind_eq_bind, Option.bind_some, ih]
      cases xs.mapM e <;> rfl

theorem mapM_eq_some_iff (e : γ → Option α) {xs : List γ} {us : List α} :
    xs.mapM e = some us ↔ (∀ x ∈ xs, (e x).isSome) ∧ xs.filterMap e = us := by
  induction xs generalizing us with
  | nil => simp
  | cons x xs ih =>
    rw [List.mapM_cons, List.forall_mem_cons]
    cases hx : e x with
    | none => simp
    | some u =>
      simp only [Option.bind_eq_bind, Option.bind_some, Option.bind_eq_some_iff, ih,
        List.filterMap_cons_some hx, Option.isSome_some, true_and]
      constructor
      · rintro ⟨_, ⟨hall, rfl⟩, hus⟩
        exact ⟨hall, Option.some.inj hus⟩
      · rintro ⟨hall, rfl⟩
        exact ⟨_, ⟨hall, rfl⟩, rfl⟩

theorem mapM_eq_iff {e e' : γ → Option α} {xs : List γ} {us : List α} (h : xs.mapM e = some us) :
    xs.mapM e' = some us ↔ ∀ x ∈ xs, e' x = e x := by
  induction xs generalizing us with
  | nil => simpa using h
  | cons x xs ih =>
    rw [List.mapM_cons, Option.bind_eq_bind, Option.bind_eq_some_iff] at h
    obtain ⟨u, hu, h⟩ := h
    rw [Option.bind_eq_bind, Option.bind_eq_some_iff] at h
    obtain ⟨us, hus, heq⟩ := h
    obtain rfl := Option.some.inj heq
    rw [List.mapM_cons, List.forall_mem_cons, hu, ← ih hus]
    cases hx : e' x with
    | none => simp
    | some u' => cases hxs : xs.mapM e' <;> simp

/-- The fold ends when each entry can be read, and has put all of them in. -/
theorem foldlM_put_eq_some_iff (put : σ → α → σ) (e : γ → Option α) (s t : σ) (xs : List γ) :
    xs.foldlM (fun s x => (e x).map (put s)) s = some t ↔
      (∀ x ∈ xs, (e x).isSome) ∧ (xs.filterMap e).foldl put s = t := by
  rw [foldlM_put, Option.map_eq_some_iff]
  constructor
  · rintro ⟨us, hus, rfl⟩
    obtain ⟨hall, rfl⟩ := (mapM_eq_some_iff e).mp hus
    exact ⟨hall, rfl⟩
  · rintro ⟨hall, rfl⟩
    exact ⟨_, (mapM_eq_some_iff e).mpr ⟨hall, rfl⟩, rfl⟩

theorem length_flatMap_le {f f' : α → List β} {xs : List α} (h : ∀ x ∈ xs, f x = f' x ∨ f x = []) :
    (xs.flatMap f).length ≤ (xs.flatMap f').length := by
  induction xs with
  | nil => exact Nat.le_refl 0
  | cons x xs ih =>
    obtain ⟨hx, hxs⟩ := List.forall_mem_cons.mp h
    have hrest := ih hxs
    rcases hx with hx | hx <;>
      simp only [List.flatMap_cons, List.length_append, hx, List.length_nil] <;> omega

/-- Where one of two readings adds what the other adds or nothing, the totals are the same only
if every entry adds the same. -/
theorem flatMap_eq_iff {f f' : α → List β} {xs : List α} (h : ∀ x ∈ xs, f x = f' x ∨ f x = []) :
    xs.flatMap f = xs.flatMap f' ↔ ∀ x ∈ xs, f x = f' x := by
  refine ⟨fun heq => ?_, fun heq => List.flatMap_congr heq⟩
  induction xs with
  | nil => nofun
  | cons x xs ih =>
    obtain ⟨hx, hxs⟩ := List.forall_mem_cons.mp h
    have hle := length_flatMap_le hxs
    rw [List.flatMap_cons, List.flatMap_cons] at heq
    have hhead : f x = f' x := by
      rcases hx with hx | hx
      · exact hx
      · have hlen := congrArg List.length heq
        simp only [hx, List.length_append, List.length_nil] at hlen
        rw [hx, List.length_eq_zero_iff.mp (show (f' x).length = 0 by omega)]
    rw [hhead] at heq
    exact List.forall_mem_cons.mpr ⟨hhead, ih hxs (List.append_cancel_left heq)⟩

/-- The entry that settles a field: no entry after it has a value. -/
def Last (g : α → Option β) (xs : List α) (x : α) : Prop :=
  (g x).isSome ∧ ∃ before after, xs = before ++ x :: after ∧ ∀ y ∈ after, g y = none

theorem latest_of_last {g : α → Option β} (start : β) {xs : List α} {x : α} (h : Last g xs x) :
    some (latest g start xs) = g x := by
  obtain ⟨hx, before, after, rfl, hafter⟩ := h
  obtain ⟨b, hb⟩ := Option.isSome_iff_exists.mp hx
  have hnone : after.filterMap g = [] := List.filterMap_eq_nil_iff.mpr hafter
  simp [latest, List.filterMap_append, List.filterMap_cons_some hb, hnone, hb]

/-- Either no entry has a value, or there is a last one that has. -/
theorem none_or_last (g : α → Option β) (xs : List α) :
    (∀ x ∈ xs, g x = none) ∨ ∃ x, Last g xs x := by
  induction xs using List.reverseRecOn with
  | nil => exact .inl nofun
  | append_singleton xs x ih =>
    cases hx : g x with
    | some b => exact .inr ⟨x, by simp [hx], xs, [], rfl, nofun⟩
    | none =>
      refine ih.imp (fun hnone => ?_) ?_
      · intro y hy
        rcases List.mem_append.mp hy with hy | hy
        · exact hnone y hy
        · rwa [List.mem_singleton.mp hy]
      · rintro ⟨y, hy, before, after, rfl, hafter⟩
        refine ⟨y, hy, before, after ++ [x], by simp, ?_⟩
        intro z hz
        rcases List.mem_append.mp hz with hz | hz
        · exact hafter z hz
        · rwa [List.mem_singleton.mp hz]

/-- Two readings that give values to the same entries leave the same in a field if and only if
they agree on the last of these. -/
theorem latest_eq_iff {g g' : α → Option β} {start : β} {xs : List α}
    (h : ∀ x ∈ xs, (g x).isSome = (g' x).isSome) :
    latest g start xs = latest g' start xs ↔ ∀ x, Last g' xs x → g x = g' x := by
  have hlast : ∀ x, Last g' xs x → Last g xs x := by
    rintro x ⟨hx, before, after, rfl, hafter⟩
    refine ⟨(h x (by simp)).trans hx, before, after, rfl, fun y hy => ?_⟩
    have hy' := h y (by simp [hy])
    rw [hafter y hy] at hy'
    exact Option.isNone_iff_eq_none.mp (by simpa using hy')
  constructor
  · intro heq x hx
    rw [← latest_of_last start hx, ← latest_of_last start (hlast x hx), heq]
  · intro hall
    rcases none_or_last g' xs with hnone | ⟨x, hx⟩
    · have hnone' : ∀ x ∈ xs, g x = none := by
        intro x hx
        have hsome := h x hx
        rw [hnone x hx] at hsome
        exact Option.isNone_iff_eq_none.mp (by simpa using hsome)
      rw [latest, latest, List.filterMap_eq_nil_iff.mpr hnone, List.filterMap_eq_nil_iff.mpr hnone']
    · refine Option.some.inj ?_
      rw [latest_of_last start hx, latest_of_last start (hlast x hx), hall x hx]

section
variable {c r : γ → Option α} {xs : List γ}

theorem gathered_eq_iff {f : α → List β}
    (h : ∀ x ∈ xs, ∃ u v, c x = some u ∧ r x = some v ∧ (f u = f v ∨ f u = [])) :
    (xs.filterMap c).flatMap f = (xs.filterMap r).flatMap f ↔
      ∀ x ∈ xs, (c x).map f = (r x).map f := by
  rw [flatMap_filterMap, flatMap_filterMap, flatMap_eq_iff]
  · refine forall₂_congr fun x hx => ?_
    obtain ⟨u, v, hu, hv, -⟩ := h x hx
    simp [hu, hv]
  · intro x hx
    obtain ⟨u, v, hu, hv, hf⟩ := h x hx
    simpa [hu, hv] using hf

/-- Two readings of the same text that give a value to the same entries. -/
theorem settled_eq_iff {g : α → Option β} {start : β}
    (h : ∀ x ∈ xs, ∃ u v, c x = some u ∧ r x = some v ∧ (g u).isSome = (g v).isSome) :
    latest g start (xs.filterMap c) = latest g start (xs.filterMap r) ↔
      ∀ before x after, xs = before ++ x :: after →
        (∃ later ∈ after, ((r later).bind g).isSome) ∨ (c x).bind g = (r x).bind g := by
  have hsome : ∀ x ∈ xs, ((c x).bind g).isSome = ((r x).bind g).isSome := by
    intro x hx
    obtain ⟨u, v, hu, hv, hg⟩ := h x hx
    simpa [hu, hv] using hg
  rw [latest_filterMap, latest_filterMap, latest_eq_iff hsome]
  constructor
  · rintro hlast before x after rfl
    by_cases hlater : ∃ later ∈ after, ((r later).bind g).isSome
    · exact .inl hlater
    · right
      cases hx : (r x).bind g with
      | none =>
        have hc := hsome x (by simp)
        rw [hx] at hc
        exact Option.isNone_iff_eq_none.mp (by simpa using hc)
      | some b =>
        rw [← hx]
        refine hlast x ⟨by simp [hx], before, after, rfl, fun y hy => ?_⟩
        by_contra hne
        exact hlater ⟨y, hy, Option.isSome_iff_ne_none.mpr hne⟩
  · rintro hall x ⟨-, before, after, hxs, hafter⟩
    refine (hall before x after hxs).resolve_left ?_
    rintro ⟨later, hmem, hlater⟩
    simp [hafter later hmem] at hlater

end

end Fields
