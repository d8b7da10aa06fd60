import Mathlib.Data.List.Basic
import Mathlib.Data.List.Forall2
import Mathlib.Data.List.Perm.Basic
import Mathlib.Data.Nat.Basic
import Mathlib.Data.Set.List

/-!
# Batches that are answered in any order

A list is cut into windows, each is asked for by one call, and the answers are taken in the order in
which they arrive. What is the same in every order: which elements are asked for, and whether an
answer is missing.
-/

namespace ArbitrageBot.Lib.Batches

variable {α β ε : Type*}

/-! ## Windows -/

/-- The windows of a size, the last one as short as need be. -/
def windows (size : ℕ) (xs : List α) : List (List α) :=
  (List.range ((xs.length + (size - 1)) / size)).map fun k => (xs.drop (k * size)).take size

theorem flatten_range (size : ℕ) (xs : List α) (n : ℕ) :
    ((List.range n).map fun k => (xs.drop (k * size)).take size).flatten = xs.take (n * size) := by
  induction n with
  | zero => rw [Nat.zero_mul]; rfl
  | succ n ih =>
    rw [List.range_succ, List.map_append, List.flatten_append, ih, Nat.succ_mul, List.take_add]
    simp

/-- **The windows make up the list.** -/
theorem flatten_windows {size : ℕ} (hsize : 0 < size) (xs : List α) :
    (windows size xs).flatten = xs := by
  unfold windows
  rw [flatten_range]
  refine List.take_of_length_le ?_
  have hdiv := Nat.lt_div_mul_add hsize (a := xs.length + (size - 1))
  omega

theorem mem_of_mem_windows {size : ℕ} {xs window : List α} {x : α} (h : window ∈ windows size xs)
    (hx : x ∈ window) : x ∈ xs := by
  obtain ⟨k, -, rfl⟩ := List.mem_map.mp h
  exact List.mem_of_mem_drop (List.mem_of_mem_take hx)

theorem windows_map (size : ℕ) (g : α → β) (xs : List α) :
    windows size (xs.map g) = (windows size xs).map (List.map g) := by
  unfold windows
  rw [List.length_map, List.map_map]
  refine List.map_congr_left fun k _ => ?_
  rw [Function.comp_apply, List.map_take, List.map_drop]

/-! ## Answers -/

/-- What becomes of the calls of a batch: which of them are answered, and in what order the answers
arrive. -/
structure Network where
  answered : ℕ → Bool
  order : ∀ {α : Type}, List α → List α
  perm : ∀ {α : Type} (l : List α), (order l).Perm l

section Calls

variable {α β σ ε : Type} {f : σ → β → Except ε σ} {s s' : σ} {answers : List (Except ε β)}
  {values : List β}

/-- The answers to the calls for some windows, in the order of their arrival. -/
def Network.calls (net : Network) (lost : ε) (call : α → Except ε β) (windows : List α) :
    List (Except ε β) :=
  net.order (windows.zipIdx.map fun (window, k) =>
    if net.answered k then call window else .error lost)

/-- A loop over answers ends well when each answer is one and the loop over what they say does. -/
theorem foldlM_answers : answers.foldlM (fun s answer => answer >>= f s) s = .ok s' ↔
    ∃ values : List β, answers = values.map Except.ok ∧ values.foldlM f s = .ok s' := by
  have hbind : ∀ s value, (Except.ok value >>= f s) = f s value := fun _ _ => rfl
  induction answers generalizing s with
  | nil =>
    constructor
    · exact fun h => ⟨[], rfl, h⟩
    · rintro ⟨values, hvalues, h⟩
      rw [List.map_eq_nil_iff.mp hvalues.symm] at h
      exact h
  | cons answer answers ih =>
    rw [List.foldlM_cons]
    constructor
    · intro h
      cases answer with
      | error e => cases h
      | ok value =>
        rw [hbind] at h
        cases hstep : f s value with
        | error e =>
          rw [hstep] at h
          cases h
        | ok t =>
          rw [hstep] at h
          obtain ⟨values, rfl, hrest⟩ := ih.mp h
          refine ⟨value :: values, rfl, ?_⟩
          rw [List.foldlM_cons, hstep]
          exact hrest
    · rintro ⟨values, hvalues, h⟩
      cases values with
      | nil => cases hvalues
      | cons value values =>
        obtain ⟨rfl, hrest⟩ := List.cons.inj hvalues
        rw [List.foldlM_cons] at h
        rw [hbind]
        cases hstep : f s value with
        | error e =>
          rw [hstep] at h
          cases h
        | ok t =>
          rw [hstep] at h
          exact ih.mpr ⟨values, hrest, h⟩

/-- **Answers that all arrive** say what the calls do, in some order. -/
theorem Network.calls_eq {net : Network} {lost : ε} {call : α → Except ε β} {windows : List α}
    (h : net.calls lost call windows = values.map Except.ok) :
    ∃ values' : List β, windows.map call = values'.map Except.ok ∧ values.Perm values' := by
  unfold Network.calls at h
  have hperm := (List.Perm.of_eq h.symm).trans (net.perm _)
  have hcalls : (windows.zipIdx.map fun (window, k) =>
      if net.answered k then call window else .error lost) = windows.map call := by
    conv_rhs => rw [← List.zipIdx_map_fst 0 windows, List.map_map]
    refine List.map_congr_left fun p hp => ?_
    obtain ⟨value, -, hvalue⟩ := List.mem_map.mp (hperm.mem_iff.mpr (List.mem_map_of_mem hp))
    dsimp only at hvalue
    split at hvalue
    · rename_i hanswered
      exact if_pos hanswered
    · cases hvalue
  replace hperm := hperm.trans (List.Perm.of_eq hcalls)
  have hrange : windows.map call ∈ Set.range (List.map (Except.ok (ε := ε) (α := β))) := by
    rw [Set.range_list_map]
    intro answer hanswer
    obtain ⟨value, -, hvalue⟩ := List.mem_map.mp (hperm.mem_iff.mpr hanswer)
    exact ⟨value, hvalue⟩
  obtain ⟨values', hvalues'⟩ := hrange
  rw [← hvalues'] at hperm
  refine ⟨values', hvalues'.symm, ?_⟩
  exact (List.map_perm_map_iff fun _ _ heq => Except.ok.inj heq).mp hperm

/-- Each of the answers is one to a call, and each call has one. -/
theorem Network.mem_answers {net : Network} {lost : ε} {call : α → Except ε β} {windows : List α}
    (h : net.calls lost call windows = values.map Except.ok) :
    (∀ value ∈ values, ∃ window ∈ windows, call window = .ok value) ∧
    ∀ window ∈ windows, ∃ value ∈ values, call window = .ok value := by
  obtain ⟨values', hcalls, hperm⟩ := calls_eq h
  have hmem : ∀ answer, answer ∈ windows.map call ↔ answer ∈ values'.map Except.ok := by
    simp [hcalls]
  constructor
  · intro value hvalue
    exact List.mem_map.mp ((hmem _).mpr (List.mem_map_of_mem (hperm.mem_iff.mp hvalue)))
  · intro window hwindow
    obtain ⟨value, hvalue, heq⟩ := List.mem_map.mp ((hmem _).mp (List.mem_map_of_mem hwindow))
    exact ⟨value, hperm.mem_iff.mpr hvalue, heq.symm⟩

/-- Calls that are all answered, and do not fail, have answers. -/
theorem Network.exists_answers (net : Network) (lost : ε) (call : α → Except ε β)
    (windows : List α) (hanswered : ∀ k, net.answered k = true)
    (hcall : ∀ window ∈ windows, ∃ value, call window = .ok value) :
    ∃ values : List β, net.calls lost call windows = values.map Except.ok := by
  have hrange : net.calls lost call windows ∈
      Set.range (List.map (Except.ok (ε := ε) (α := β))) := by
    rw [Set.range_list_map]
    intro answer hanswer
    obtain ⟨p, hp, rfl⟩ := List.mem_map.mp ((net.perm _).mem_iff.mp hanswer)
    simp only [hanswered, if_true]
    have hmem : p.1 ∈ windows := by
      rw [← List.zipIdx_map_fst 0 windows]
      exact List.mem_map_of_mem hp
    obtain ⟨value, hvalue⟩ := hcall p.1 hmem
    exact ⟨value, hvalue.symm⟩
  obtain ⟨values, hvalues⟩ := hrange
  exact ⟨values, hvalues.symm⟩

/-- A permutation of values is the values of a permutation. -/
theorem exists_perm_map {value : α → β} {xs : List α} {values : List β}
    (h : values.Perm (xs.map value)) : ∃ ys : List α, ys.Perm xs ∧ values = ys.map value := by
  have hmap : List.Forall₂ (fun b a => b = value a) (xs.map value) xs := by
    rw [List.forall₂_map_left_iff]
    exact List.forall₂_same.mpr fun _ _ => rfl
  obtain ⟨ys, hvalues, hperm⟩ := List.perm_comp_forall₂ h hmap
  refine ⟨ys, hperm, ?_⟩
  clear h hmap hperm
  induction hvalues with
  | nil => rfl
  | cons hvalue _ ih => rw [List.map_cons, hvalue, ← ih]

/-- **A loop over calls that are all answered**: a loop over the windows in some order. -/
theorem Network.foldlM_calls (net : Network) (lost : ε) (call : α → Except ε β) (value : α → β)
    (windows : List α) (hanswered : ∀ k, net.answered k = true)
    (hcall : ∀ window ∈ windows, call window = .ok (value window)) (f : σ → β → Except ε σ) :
    ∃ ws : List α, ws.Perm windows ∧ ∀ s, (net.calls lost call windows).foldlM
      (fun s answer => answer >>= f s) s = ws.foldlM (fun s window => f s (value window)) s := by
  have hcalls : (windows.zipIdx.map fun (window, k) =>
      if net.answered k then call window else .error lost) =
        windows.map fun window => .ok (value window) := by
    conv_rhs => rw [← List.zipIdx_map_fst 0 windows, List.map_map]
    refine List.map_congr_left fun p hp => ?_
    have hmem : p.1 ∈ windows := by
      rw [← List.zipIdx_map_fst 0 windows]
      exact List.mem_map_of_mem hp
    exact (if_pos (hanswered p.2)).trans (hcall p.1 hmem)
  have hperm : (net.calls lost call windows).Perm
      (windows.map fun window => .ok (value window)) := by
    rw [← hcalls]
    exact net.perm _
  obtain ⟨ws, hws, heq⟩ := exists_perm_map hperm
  refine ⟨ws, hws, fun s => ?_⟩
  rw [heq, List.foldlM_map]
  rfl

end Calls

/-! ## Windows that are changed in place -/

section Modify

variable {g : α → α → α}

theorem getElem?_foldl_modify (ws : List (α × ℕ)) (hnodup : (ws.map (·.2)).Nodup) (xs : List α)
    (hxs : ∀ w ∈ ws, xs[w.2]? = some w.1) (i : ℕ) :
    (ws.foldl (fun xs w => xs.modify w.2 (g w.1)) xs)[i]? =
      if i ∈ ws.map (·.2) then xs[i]?.map fun x => g x x else xs[i]? := by
  induction ws generalizing xs with
  | nil => rfl
  | cons w ws ih =>
    rw [List.map_cons, List.nodup_cons] at hnodup
    obtain ⟨hw, hws⟩ := List.forall_mem_cons.mp hxs
    have hne : ∀ w' ∈ ws, w.2 ≠ w'.2 := by
      rintro w' hw' heq
      exact hnodup.1 (heq ▸ List.mem_map_of_mem hw')
    rw [List.foldl_cons, ih hnodup.2]
    · simp only [List.map_cons, List.mem_cons]
      by_cases hi : i = w.2
      · subst hi
        rw [if_neg hnodup.1, if_pos (Or.inl rfl), List.getElem?_modify_eq, hw]
        rfl
      · simp only [hi, false_or, List.getElem?_modify_ne _ _ (Ne.symm hi)]
    · intro w' hw'
      rw [List.getElem?_modify_ne _ _ (hne w' hw')]
      exact hws w' hw'

/-- **In whatever order the windows are changed**, each is changed once. -/
theorem foldl_modify_zipIdx {xs : List α} {ws : List (α × ℕ)} (h : ws.Perm xs.zipIdx) :
    ws.foldl (fun xs w => xs.modify w.2 (g w.1)) xs = xs.map fun x => g x x := by
  have hindices : (ws.map (·.2)).Perm (List.range xs.length) := by
    have := h.map (·.2)
    rwa [List.zipIdx_map_snd, ← List.range_eq_range'] at this
  apply List.ext_getElem?
  intro i
  rw [getElem?_foldl_modify ws (hindices.nodup_iff.mpr List.nodup_range), List.getElem?_map]
  · simp only [hindices.mem_iff, List.mem_range]
    split
    · rfl
    · rename_i hi
      rw [List.getElem?_eq_none (by omega)]
      rfl
  · rintro ⟨x, k⟩ hw
    have hmem := h.mem_iff.mp hw
    rw [List.mem_zipIdx_iff_getElem?] at hmem
    exact hmem

end Modify

section Update

variable {α β ε : Type}

/-- Changes each element by the value that stands for it. -/
def zipUpdate (f : β → α → α) : List β → List α → List α
  | value :: values, x :: xs => f value x :: zipUpdate f values xs
  | _, xs => xs

theorem zipUpdate_map (f : β → α → α) (value : α → β) (xs : List α) :
    zipUpdate f (xs.map value) xs = xs.map fun x => f (value x) x := by
  induction xs with
  | nil => rfl
  | cons x xs ih => rw [List.map_cons, zipUpdate, ih, List.map_cons]

/-- A list that is changed in place: each answer goes to the window that it was asked for. -/
def Network.updateWindows (net : Network) (lost : ε) (size : ℕ)
    (call : List α → Except ε (List β)) (f : β → α → α) (xs : List α) : Except ε (List α) := do
  let answers := net.calls lost
    (fun window => (call window.1).map fun values => (window.2, values)) (windows size xs).zipIdx
  let groups ← answers.foldlM (fun groups answer => answer >>= fun values =>
    .ok (groups.modify values.1 (zipUpdate f values.2))) (windows size xs)
  return groups.flatten

/-- **Every element gets its own value**, in whatever order the windows are answered. -/
theorem Network.updateWindows_eq (net : Network) (lost : ε) {size : ℕ} (hsize : 0 < size)
    (call : List α → Except ε (List β)) (f : β → α → α) (value : α → β) (xs : List α)
    (hanswered : ∀ k, net.answered k = true)
    (hcall : ∀ window ∈ windows size xs, call window = .ok (window.map value)) :
    net.updateWindows lost size call f xs = .ok (xs.map fun x => f (value x) x) := by
  obtain ⟨ws, hperm, hfold⟩ := net.foldlM_calls lost
    (fun w : List α × ℕ => (call w.1).map fun values => (w.2, values))
    (fun w => (w.2, w.1.map value)) (windows size xs).zipIdx hanswered (by
      intro w hw
      rw [hcall w.1]
      · rfl
      · rw [← List.zipIdx_map_fst 0 (windows size xs)]
        exact List.mem_map_of_mem hw)
    (fun (groups : List (List α)) values =>
      .ok (groups.modify values.1 (zipUpdate f values.2)))
  have hpure : ws.foldlM (fun groups (w : List α × ℕ) =>
      (.ok (groups.modify w.2 (zipUpdate f (w.1.map value))) : Except ε _)) (windows size xs) =
      .ok ((windows size xs).map fun window => window.map fun x => f (value x) x) := by
    have hfoldl := List.foldlM_pure (m := Except ε)
      (f := fun (groups : List (List α)) (w : List α × ℕ) =>
        groups.modify w.2 (zipUpdate f (w.1.map value))) (b := windows size xs) (l := ws)
    rw [foldl_modify_zipIdx (g := fun window => zipUpdate f (window.map value)) hperm] at hfoldl
    simp only [zipUpdate_map] at hfoldl
    exact hfoldl
  unfold updateWindows
  dsimp only
  rw [hfold, hpure]
  change Except.ok _ = _
  rw [← List.map_flatten, flatten_windows hsize]

section Key

variable {κ : Type} {key : α → κ} {f : β → α → α}

theorem zipUpdate_key (hkey : ∀ value x, key (f value x) = key x) (values : List β) (xs : List α) :
    (zipUpdate f values xs).map key = xs.map key := by
  induction xs generalizing values with
  | nil => cases values <;> rfl
  | cons x xs ih =>
    cases values with
    | nil => rfl
    | cons value values => rw [zipUpdate, List.map_cons, List.map_cons, hkey, ih]

theorem map_modify_of_eq {g : α → α} (hkey : ∀ x, key (g x) = key x) (xs : List α) (i : ℕ) :
    (xs.modify i g).map key = xs.map key := by
  apply List.ext_getElem?
  intro j
  rw [List.getElem?_map, List.getElem?_map, List.getElem?_modify]
  cases xs[j]? with
  | none => split <;> rfl
  | some x => split <;> simp [hkey]

/-- **A change in place keeps what each change keeps**, whichever windows are answered. -/
theorem Network.updateWindows_key {net : Network} {lost : ε} {size : ℕ} (hsize : 0 < size)
    {call : List α → Except ε (List β)} (hkey : ∀ value x, key (f value x) = key x)
    {xs ys : List α} (h : net.updateWindows lost size call f xs = .ok ys) :
    ys.map key = xs.map key := by
  have hfold : ∀ (values : List (ℕ × List β)) (groups groups' : List (List α)),
      values.foldlM (fun groups values =>
        (.ok (groups.modify values.1 (zipUpdate f values.2)) : Except ε _)) groups = .ok groups' →
      groups'.map (List.map key) = groups.map (List.map key) := by
    intro values
    induction values with
    | nil =>
      intro groups groups' h
      cases h
      rfl
    | cons value values ih =>
      intro groups groups' h
      rw [List.foldlM_cons] at h
      rw [ih _ groups' h]
      exact map_modify_of_eq (zipUpdate_key hkey value.2) groups value.1
  unfold updateWindows at h
  dsimp only at h
  cases hrun : (net.calls lost
      (fun window : List α × ℕ => (call window.1).map fun values => (window.2, values))
      (windows size xs).zipIdx).foldlM (fun groups answer => answer >>= fun values =>
        .ok (groups.modify values.1 (zipUpdate f values.2))) (windows size xs) with
  | error e =>
    rw [hrun] at h
    cases h
  | ok groups =>
    rw [hrun] at h
    cases h
    obtain ⟨values, -, hvalues⟩ := foldlM_answers.mp hrun
    rw [List.map_flatten, hfold values _ groups hvalues, ← List.map_flatten, flatten_windows hsize]

end Key

end Update

end ArbitrageBot.Lib.Batches
