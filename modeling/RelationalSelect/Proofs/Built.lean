import RelationalSelect.Proofs.Owners

set_option autoImplicit false

namespace RelationalSelect

namespace Relation

inductive Builds (rs : List Relation) : Fresh Relation → Prop
  | newTable (name : String) (columns : List String) : Builds rs (Relation.newTable name columns)
  | asAlias {inner : Relation} (there : inner ∈ rs) : Builds rs (Relation.asAlias inner)
  | select {inner : Relation} (there : inner ∈ rs) (predicate : Predicate) :
      Builds rs (Relation.select inner predicate)
  | joinOn (kind : JoinKind) {left right : Relation} (thereLeft : left ∈ rs)
      (thereRight : right ∈ rs) (predicate : Predicate) :
      Builds rs (Relation.joinOn kind left right predicate)

/-- The relations built so far, the latest first, and what they have left of the supply. -/
inductive Built : List Relation → Supply → Prop
  | none (supply : Supply) : Built [] supply
  | next {rs : List Relation} {supply : Supply} {op : Fresh Relation} (built : Built rs supply)
      (builds : Builds rs op) : Built ((op.run supply).1 :: rs) (op.run supply).2

theorem Builds.adds {rs : List Relation} {op : Fresh Relation} (h : Builds rs op)
    (supply : Supply) : (op.run supply).1.id = ⟨supply.next⟩ ∧
      (op.run supply).2.next = supply.next + 1 ∧
      ∀ n ∈ (op.run supply).1.beneath, ∃ r ∈ rs, n ∈ r.nodes := by
  refine ⟨by cases h <;> rfl, by cases h <;> rfl, fun n hn => ?_⟩
  cases h with
  | newTable => exact absurd hn List.not_mem_nil
  | asAlias there | select there => exact ⟨_, there, hn⟩
  | joinOn _ thereLeft thereRight =>
    cases List.mem_append.1 hn with
    | inl hn => exact ⟨_, thereLeft, hn⟩
    | inr hn => exact ⟨_, thereRight, hn⟩

theorem Builds.node_cases {rs : List Relation} {op : Fresh Relation} (h : Builds rs op)
    {supply : Supply} {r n : Relation} (hr : r ∈ (op.run supply).1 :: rs) (hn : n ∈ r.nodes) :
    n = (op.run supply).1 ∨ ∃ s ∈ rs, n ∈ s.nodes := by
  obtain ⟨-, -, hbeneath⟩ := h.adds supply
  cases List.mem_cons.1 hr with
  | inl hr =>
    rw [hr] at hn
    exact (List.mem_cons.1 hn).imp_right (hbeneath n)
  | inr hr => exact .inr ⟨r, hr, hn⟩

theorem Built.index_lt {rs : List Relation} {supply : Supply} (h : Built rs supply) :
    ∀ r ∈ rs, ∀ n ∈ r.nodes, n.id.index < supply.next := by
  induction h with
  | none => nofun
  | @next rs supply op _ builds ih =>
    obtain ⟨hid, hnext, -⟩ := builds.adds supply
    intro r hr n hn
    rw [hnext]
    rcases builds.node_cases hr hn with rfl | ⟨s, hs, hns⟩
    · simp [hid]
    · exact Nat.lt_succ_of_lt (ih s hs n hns)

/-- Among relations built from one supply, an identity stands for one node. -/
theorem Built.coherent {rs : List Relation} {supply : Supply} (h : Built rs supply) :
    Coherent (· ∈ rs) := by
  induction h with
  | none => nofun
  | @next rs supply op built builds ih =>
    have hid := (builds.adds supply).1
    -- no earlier node has the identity that the operation takes
    have hnew : ∀ n, (∃ s ∈ rs, n ∈ s.nodes) → n.id ≠ ⟨supply.next⟩ := by
      rintro n ⟨s, hs, hns⟩ heq
      have hlt := built.index_lt s hs n hns
      simp [heq] at hlt
    intro r s hr hs m hm n hn heq
    rcases builds.node_cases hr hm with rfl | ⟨r₁, hr₁, hm₁⟩
    · rcases builds.node_cases hs hn with rfl | hn
      · rfl
      · exact absurd (heq.symm.trans hid) (hnew n hn)
    · rcases builds.node_cases hs hn with rfl | ⟨s₁, hs₁, hn₁⟩
      · exact absurd (heq.trans hid) (hnew m ⟨r₁, hr₁, hm₁⟩)
      · exact ih r₁ s₁ hr₁ hs₁ m hm₁ n hn₁ heq

end Relation

end RelationalSelect
