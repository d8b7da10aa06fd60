import Mathlib.Data.List.Chain
import Mathlib.Data.List.Nodup

/-!
# Cycles of a multigraph

Edges of a type `ε` with end points in `ν`, so that parallel edges and loops are edges like any
other. A walk grows at its end; a closed walk is a walk and an edge back to its start
(`isClosedWalk_iff`), and it leaves no point twice exactly when the walk comes to none twice
(`isSimpleCycle_iff`).
-/

namespace ArbitrageBot.Lib

variable {ε ν : Type*} (src tgt : ε → ν) (E : ε → Prop)

/-- Walks along the edges `E` from `s`. -/
inductive Walk (s : ν) : List ε → ν → Prop
  | nil : Walk s [] s
  | snoc {p : List ε} {v : ν} {e : ε} (hp : Walk s p v) (hE : E e) (hsrc : src e = v) :
      Walk s (p ++ [e]) (tgt e)

/-- Non-empty chains of edges that end where they start. -/
structure IsClosedWalk (q : List ε) : Prop where
  ne_nil : q ≠ []
  edges : ∀ e ∈ q, E e
  chain : q.IsChain fun a b => tgt a = src b
  closed : q.getLast?.map tgt = q.head?.map src

variable {src tgt E} {s v : ν} {p q : List ε}

namespace Walk

theorem edges (h : Walk src tgt E s p v) : ∀ e ∈ p, E e := by
  induction h with
  | nil => simp
  | snoc hp hE hsrc ih =>
    intro e he
    rcases List.mem_append.mp he with he | he
    · exact ih e he
    · rw [List.mem_singleton] at he
      exact he ▸ hE

/-- The points a walk leaves and its end are its start and the points it comes to. -/
theorem map_src (h : Walk src tgt E s p v) : p.map src ++ [v] = s :: p.map tgt := by
  induction h with
  | nil => rfl
  | snoc hp hE hsrc ih =>
    subst hsrc
    rw [List.map_append, List.map_append, List.map_singleton, List.map_singleton, ih]
    rfl

theorem last_eq (h : Walk src tgt E s p v) : ∀ e ∈ p.getLast?, tgt e = v := by
  cases h with
  | nil => simp
  | snoc => simp

theorem chain (h : Walk src tgt E s p v) : p.IsChain fun a b => tgt a = src b := by
  induction h with
  | nil => simp
  | snoc hp hE hsrc ih =>
    rw [List.isChain_append]
    refine ⟨ih, List.isChain_singleton _, ?_⟩
    intro a ha b hb
    rw [List.head?_cons, Option.mem_some_iff] at hb
    rw [← hb, hsrc]
    exact hp.last_eq a ha

/-- The edges of a chain before any edge of it are a walk to where that edge leaves. -/
theorem of_prefix {e : ε} {rest : List ε} (hE : ∀ a ∈ p ++ e :: rest, E a)
    (hchain : (p ++ e :: rest).IsChain fun a b => tgt a = src b)
    (hs : ∀ a ∈ (p ++ e :: rest).head?, src a = s) : Walk src tgt E s p (src e) := by
  induction p using List.reverseRecOn generalizing e rest with
  | nil =>
    rw [hs e (by simp)]
    exact Walk.nil
  | append_singleton p a ih =>
    rw [List.append_assoc, List.singleton_append] at hE hchain hs
    have htgt : tgt a = src e := by
      rw [List.isChain_append] at hchain
      exact (List.isChain_cons_cons.mp hchain.2.1).1
    rw [← htgt]
    exact Walk.snoc (ih hE hchain hs) (hE a (by simp)) rfl

end Walk

/-- **A closed walk is a walk followed by an edge back to its start.** -/
theorem isClosedWalk_iff : IsClosedWalk src tgt E q ↔
    ∃ s p e, q = p ++ [e] ∧ Walk src tgt E s p (src e) ∧ E e ∧ tgt e = s := by
  constructor
  · intro h
    obtain ⟨p, e, rfl⟩ : ∃ p e, q = p ++ [e] :=
      ⟨_, _, (List.dropLast_append_getLast h.ne_nil).symm⟩
    obtain ⟨a, ha⟩ : ∃ a, (p ++ [e]).head? = some a := by
      cases hq : p ++ [e] with
      | nil => exact absurd hq h.ne_nil
      | cons a _ => exact ⟨a, rfl⟩
    have hclosed := h.closed
    rw [List.getLast?_append_cons, List.getLast?_singleton, ha] at hclosed
    refine ⟨src a, p, e, rfl, Walk.of_prefix h.edges h.chain ?_, h.edges e (by simp),
      Option.some.inj hclosed⟩
    intro b hb
    rw [ha, Option.mem_some_iff] at hb
    rw [hb]
  · rintro ⟨s, p, e, rfl, hwalk, hE, htgt⟩
    refine ⟨by simp, ?_, ?_, ?_⟩
    · intro a ha
      rcases List.mem_append.mp ha with ha | ha
      · exact hwalk.edges a ha
      · rw [List.mem_singleton] at ha
        exact ha ▸ hE
    · rw [List.isChain_append]
      refine ⟨hwalk.chain, List.isChain_singleton _, ?_⟩
      intro a ha b hb
      rw [List.head?_cons, Option.mem_some_iff] at hb
      rw [← hb]
      exact hwalk.last_eq a ha
    · have hmap := hwalk.map_src
      rw [List.getLast?_append_cons, List.getLast?_singleton, Option.map_some, htgt]
      cases p with
      | nil =>
        rw [List.map_nil, List.map_nil, List.nil_append, List.singleton_inj] at hmap
        rw [List.nil_append, List.head?_singleton, Option.map_some, hmap]
      | cons a rest =>
        rw [List.map_cons, List.cons_append, List.cons.injEq] at hmap
        rw [List.cons_append, List.head?_cons, Option.map_some, hmap.1]

/-- **A simple cycle is a walk that comes to no point twice and an edge back to its start.** -/
theorem isSimpleCycle_iff : (IsClosedWalk src tgt E q ∧ (q.map src).Nodup) ↔
    ∃ s p e, q = p ++ [e] ∧ Walk src tgt E s p (src e) ∧ (s :: p.map tgt).Nodup ∧ E e ∧
      tgt e = s := by
  rw [isClosedWalk_iff]
  constructor
  · rintro ⟨⟨s, p, e, rfl, hwalk, hE, htgt⟩, hnodup⟩
    rw [List.map_append, List.map_singleton, hwalk.map_src] at hnodup
    exact ⟨s, p, e, rfl, hwalk, hnodup, hE, htgt⟩
  · rintro ⟨s, p, e, rfl, hwalk, hnodup, hE, htgt⟩
    refine ⟨⟨s, p, e, rfl, hwalk, hE, htgt⟩, ?_⟩
    rw [List.map_append, List.map_singleton, hwalk.map_src]
    exact hnodup

end ArbitrageBot.Lib
