import Mathlib.Tactic

/-! Traversals with a stack of what is still to be visited. -/

namespace NsxManager.Lib

structure Visit (α β : Type) where
  pushed : List α
  found : List β

section Worklist

variable {α β : Type} (visit : α → Visit α β)

/-- The stack has its top first; there is no result if so many visits do not empty it. -/
def walk : ℕ → List α → List β → Option (List β)
  | _, [], out => some out
  | 0, _ :: _, _ => none
  | fuel + 1, a :: pending, out => walk fuel ((visit a).pushed.reverse ++ pending) (out ++ (visit a).found)

inductive Finds : α → β → Prop
  | here {a : α} {b : β} (h : b ∈ (visit a).found) : Finds a b
  | beyond {a a' : α} {b : β} (h : a' ∈ (visit a).pushed) (hb : Finds a' b) : Finds a b

structure Apart (a : α) : Prop where
  nodup : (visit a).found.Nodup
  fresh : ∀ b ∈ (visit a).found, ∀ a' ∈ (visit a).pushed, ¬Finds visit a' b
  disjoint : (visit a).pushed.Pairwise (fun a' a'' => ∀ b, Finds visit a' b → ¬Finds visit a'' b)

variable {visit} {fuel : ℕ} {pending : List α} {out result : List β} {a : α} {b : β}

@[simp] lemma walk_nil : walk visit fuel [] out = some out := by
  cases fuel <;> rfl

lemma finds_iff : Finds visit a b ↔ b ∈ (visit a).found ∨ ∃ a' ∈ (visit a).pushed, Finds visit a' b := by
  constructor
  · rintro (h | ⟨h, hb⟩)
    · exact .inl h
    · exact .inr ⟨_, h, hb⟩
  · rintro (h | ⟨a', h, hb⟩)
    · exact .here h
    · exact .beyond h hb

theorem mem_walk (h : walk visit fuel pending out = some result) :
    b ∈ result ↔ b ∈ out ∨ ∃ a ∈ pending, Finds visit a b := by
  induction fuel generalizing pending out with
  | zero =>
    cases pending with
    | nil =>
      obtain rfl := Option.some.inj h
      simp
    | cons a pending => cases h
  | succ fuel ih =>
    cases pending with
    | nil =>
      obtain rfl := Option.some.inj h
      simp
    | cons a pending =>
      rw [ih h]
      simp only [List.mem_append, List.mem_reverse, List.mem_cons, or_and_right, exists_or, exists_eq_left,
        finds_iff (a := a), or_assoc]

theorem nodup_walk (hvisit : ∀ a, Apart visit a) (h : walk visit fuel pending out = some result) (hout : out.Nodup)
    (hfresh : ∀ a ∈ pending, ∀ b ∈ out, ¬Finds visit a b)
    (hpending : pending.Pairwise (fun a a' => ∀ b, Finds visit a b → ¬Finds visit a' b)) : result.Nodup := by
  induction fuel generalizing pending out with
  | zero =>
    cases pending with
    | nil => exact Option.some.inj h ▸ hout
    | cons a pending => cases h
  | succ fuel ih =>
    cases pending with
    | nil => exact Option.some.inj h ▸ hout
    | cons a pending =>
      rw [List.pairwise_cons] at hpending
      have hbelow : ∀ a' ∈ (visit a).pushed, ∀ b, Finds visit a' b → Finds visit a b := fun a' ha' b hb => .beyond ha' hb
      refine ih h ?_ ?_ ?_
      · refine hout.append (hvisit a).nodup (fun b hb hfound => ?_)
        exact hfresh a List.mem_cons_self b hb (.here hfound)
      · intro a' ha' b hb hfinds
        rcases List.mem_append.mp ha' with hpushed | hold <;> rcases List.mem_append.mp hb with hout' | hfound
        · exact hfresh a List.mem_cons_self b hout' (hbelow a' (List.mem_reverse.mp hpushed) b hfinds)
        · exact (hvisit a).fresh b hfound a' (List.mem_reverse.mp hpushed) hfinds
        · exact hfresh a' (List.mem_cons_of_mem _ hold) b hout' hfinds
        · exact hpending.1 a' hold b (.here hfound) hfinds
      · refine List.pairwise_append.mpr ⟨?_, hpending.2, fun a' ha' a'' ha'' b hb => ?_⟩
        · exact List.pairwise_reverse.mpr ((hvisit a).disjoint.imp (fun h b hb hb' => h b hb' hb))
        · exact hpending.1 a'' ha'' b (hbelow a' (List.mem_reverse.mp ha') b hb)

lemma walk_mono {fuel' : ℕ} (h : walk visit fuel pending out = some result) (hle : fuel ≤ fuel') :
    walk visit fuel' pending out = some result := by
  induction fuel generalizing fuel' pending out with
  | zero =>
    cases pending with
    | nil => rwa [walk_nil] at h ⊢
    | cons a pending => cases h
  | succ fuel ih =>
    cases pending with
    | nil => rwa [walk_nil] at h ⊢
    | cons a pending =>
      obtain ⟨k, rfl⟩ : ∃ k, fuel' = k + 1 := ⟨fuel' - 1, by omega⟩
      rw [walk] at h ⊢
      exact ih h (Nat.le_of_succ_le_succ hle)

def Clears (visit : α → Visit α β) (l : List α) : Prop :=
  ∃ n, ∀ fuel pending out, ∃ out', walk visit (n + fuel) (l ++ pending) out = walk visit fuel pending out'

lemma clears_append {l l' : List α} (h : Clears visit l) (h' : Clears visit l') : Clears visit (l ++ l') := by
  obtain ⟨n, hn⟩ := h
  obtain ⟨n', hn'⟩ := h'
  refine ⟨n + n', fun fuel pending out => ?_⟩
  obtain ⟨out₁, h₁⟩ := hn (n' + fuel) (l' ++ pending) out
  obtain ⟨out₂, h₂⟩ := hn' fuel pending out₁
  exact ⟨out₂, by rw [List.append_assoc, Nat.add_assoc, h₁, h₂]⟩

lemma clears_of_each {l : List α} (h : ∀ a ∈ l, Clears visit [a]) : Clears visit l := by
  induction l with
  | nil => exact ⟨0, fun fuel pending out => ⟨out, by rw [Nat.zero_add, List.nil_append]⟩⟩
  | cons a l ih =>
    exact clears_append (h a List.mem_cons_self) (ih (fun a' ha' => h a' (List.mem_cons_of_mem _ ha')))

lemma clears_of_pushed (h : Clears visit (visit a).pushed.reverse) : Clears visit [a] := by
  obtain ⟨n, hn⟩ := h
  refine ⟨n + 1, fun fuel pending out => ?_⟩
  obtain ⟨out', h'⟩ := hn fuel pending (out ++ (visit a).found)
  exact ⟨out', by rw [Nat.add_right_comm, List.singleton_append, walk, h']⟩

theorem walk_ends {rank : α → ℕ} (hrank : ∀ a, ∀ a' ∈ (visit a).pushed, rank a' < rank a) (pending : List α) :
    ∃ n, ∀ out, ∃ result, walk visit n pending out = some result := by
  have hclears : ∀ k a, rank a < k → Clears visit [a] := by
    intro k
    induction k with
    | zero => exact fun a ha => absurd ha (Nat.not_lt_zero _)
    | succ k ih =>
      refine fun a ha => clears_of_pushed (clears_of_each (fun a' ha' => ih a' ?_))
      have hlower := hrank a a' (List.mem_reverse.mp ha')
      omega
  obtain ⟨n, hn⟩ := clears_of_each (l := pending) (fun a _ => hclears (rank a + 1) a (Nat.lt_succ_self _))
  refine ⟨n, fun out => ?_⟩
  obtain ⟨out', h'⟩ := hn 0 [] out
  rw [List.append_nil, Nat.add_zero, walk_nil] at h'
  exact ⟨out', h'⟩

end Worklist

end NsxManager.Lib
