import Mathlib.Data.List.Nodup

/-!
# Names Made Unique

Things are given names one after the other. Each thing wants a name; if the name it wants is taken
already it gets another one, which nothing wants and which is not taken.

## Main results

* `Named.nodup` — no two things have the same name.
* `Named.cases` — a thing has the name it wants or one that was made for it.
* `Named.wanted_iff` — a thing has the name it wants exactly if nothing before it wants that name.
-/

namespace UniqueNames

variable {α β : Type} [DecidableEq β]

/-- The name of a new thing, when some names are taken. -/
def assign (wanted : α → β) (renamed : List β → α → β) (taken : List β) (a : α) : β :=
  if wanted a ∈ taken then renamed taken a else wanted a

/-- **Things with their names**, in the order in which they were named, when some names are reserved
from the start. -/
inductive Named (wanted : α → β) (renamed : List β → α → β) (reserved : List β) :
    List (α × β) → Prop
  | nil : Named wanted renamed reserved []
  | snoc {l : List (α × β)} (a : α) (h : Named wanted renamed reserved l) :
      Named wanted renamed reserved
        (l ++ [(a, assign wanted renamed (reserved ++ l.map Prod.snd) a)])

/-- What makes the names unique: a name that is made for a thing is not taken and is wanted by
nothing, and no reserved name is wanted. -/
structure Lawful (wanted : α → β) (renamed : List β → α → β) (reserved : List β) : Prop where
  fresh : ∀ taken a, wanted a ∈ taken → renamed taken a ∉ taken
  apart : ∀ taken a b, renamed taken a ≠ wanted b
  unwanted : ∀ a, wanted a ∉ reserved

variable {wanted : α → β} {renamed : List β → α → β} {reserved : List β} {l : List (α × β)}

theorem assign_notMem (hlaw : Lawful wanted renamed reserved) (taken : List β) (a : α) :
    assign wanted renamed taken a ∉ taken := by
  rw [assign]
  split
  · exact hlaw.fresh taken a ‹_›
  · assumption

/-- **No two things have the same name.** -/
theorem Named.nodup (hlaw : Lawful wanted renamed reserved)
    (h : Named wanted renamed reserved l) : (l.map Prod.snd).Nodup := by
  induction h with
  | nil => exact List.nodup_nil
  | @snoc l a h ih =>
      have hnew := assign_notMem hlaw (reserved ++ l.map Prod.snd) a
      rw [List.map_append, List.nodup_append]
      refine ⟨ih, List.nodup_singleton _, ?_⟩
      intro n hn m hm hnm
      rw [List.map_singleton, List.mem_singleton] at hm
      subst hm hnm
      exact hnew (List.mem_append_right _ hn)

/-- A thing has the name it wants, or one that was made for it. -/
theorem Named.cases (h : Named wanted renamed reserved l) {p : α × β} (hp : p ∈ l) :
    p.2 = wanted p.1 ∨ ∃ taken, p.2 = renamed taken p.1 := by
  induction h with
  | nil => cases hp
  | snoc a h ih =>
      rcases List.mem_append.mp hp with hp | hp
      · exact ih hp
      · rw [List.mem_singleton.mp hp]
        dsimp only [assign]
        split
        · exact .inr ⟨_, rfl⟩
        · exact .inl rfl

/-- **A name that is wanted is taken** exactly if something wants it that is named already. -/
theorem Named.mem_iff (hlaw : Lawful wanted renamed reserved)
    (h : Named wanted renamed reserved l) (b : α) :
    wanted b ∈ reserved ++ l.map Prod.snd ↔ ∃ p ∈ l, wanted p.1 = wanted b := by
  constructor
  · intro hmem
    rcases List.mem_append.mp hmem with hmem | hmem
    · exact absurd hmem (hlaw.unwanted b)
    · obtain ⟨p, hp, hname⟩ := List.mem_map.mp hmem
      rcases h.cases hp with hwanted | ⟨taken, hrenamed⟩
      · exact ⟨p, hp, hwanted.symm.trans hname⟩
      · exact absurd (hrenamed.symm.trans hname) (hlaw.apart taken p.1 b)
  · rintro ⟨p, hp, hname⟩
    refine List.mem_append_right _ ?_
    induction h with
    | nil => cases hp
    | @snoc l a h ih =>
        rw [List.map_append, List.mem_append]
        rcases List.mem_append.mp hp with hp | hp
        · exact .inl (ih hp)
        · rw [List.mem_singleton.mp hp] at hname
          by_cases htaken : wanted a ∈ reserved ++ l.map Prod.snd
          · rw [hname] at htaken
            rcases List.mem_append.mp htaken with htaken | htaken
            · exact absurd htaken (hlaw.unwanted b)
            · exact .inl htaken
          · refine .inr ?_
            simp [assign, htaken, ← hname]

/-- The name of a thing was chosen when those before it had theirs. -/
theorem Named.assigned {l₁ l₂ : List (α × β)} {p : α × β}
    (h : Named wanted renamed reserved (l₁ ++ p :: l₂)) :
    Named wanted renamed reserved l₁ ∧
      p.2 = assign wanted renamed (reserved ++ l₁.map Prod.snd) p.1 := by
  generalize hl : l₁ ++ p :: l₂ = l at h
  induction h generalizing l₂ with
  | nil => simp at hl
  | @snoc l a h ih =>
      rcases List.eq_nil_or_concat l₂ with rfl | ⟨l₂, q, rfl⟩
      · obtain ⟨rfl, hp⟩ := List.append_inj' hl rfl
        obtain rfl := List.singleton_inj.mp hp
        exact ⟨h, rfl⟩
      · rw [List.concat_eq_append, ← List.cons_append, ← List.append_assoc] at hl
        exact ih (List.append_inj' hl rfl).1

/-- **A thing has the name it wants** exactly if nothing before it wants that name. -/
theorem Named.wanted_iff (hlaw : Lawful wanted renamed reserved) {l₁ l₂ : List (α × β)} {p : α × β}
    (h : Named wanted renamed reserved (l₁ ++ p :: l₂)) :
    p.2 = wanted p.1 ↔ ∀ q ∈ l₁, wanted q.1 ≠ wanted p.1 := by
  obtain ⟨hbefore, hname⟩ := h.assigned
  have hmem := hbefore.mem_iff hlaw p.1
  rw [hname, assign]
  split
  · rename_i htaken
    obtain ⟨q, hq, hwanted⟩ := hmem.mp htaken
    constructor
    · intro h
      exact absurd h (hlaw.apart _ p.1 p.1)
    · intro hall
      exact absurd hwanted (hall q hq)
  · rename_i htaken
    exact iff_of_true rfl fun q hq hwanted => htaken (hmem.mpr ⟨q, hq, hwanted⟩)

end UniqueNames
