import TieredQuery.Proofs.Cache.Revision

/-!
# How long an entry is retained

In a cache without a lifetime an entry goes only when other query texts push it out. `Retains`
says which entry a text has and which keys have been used since it was used itself; the entry
stays as long as these are fewer than the capacity.

## Key results

- `entry_of_retains`: the entry that is read
- `retains_revise_self`: the entry after it was revised itself
- `retains_revise_of_ne`: an entry stays while few others are revised
-/

namespace TieredQuery.QueryCache

variable {A : Type} {cache : QueryCache A} {text other : String} {entry : Entry A}
  {recent : Finset Fingerprint}

/-- Nothing is known of a query text, or its slot holds an entry and only keys of the given set
    have been used since it was. -/
def Retains (cache : QueryCache A) (text : String) (entry : Entry A)
    (recent : Finset Fingerprint) : Prop :=
  cache.slot? (.ofText text) = none ∧ entry = .unseen ∨
    ∃ storedAt, cache.Within (.ofText text) ⟨entry, storedAt⟩ recent

/-- More keys may have been used since. -/
theorem retains_mono {recent' : Finset Fingerprint} (hsub : recent ⊆ recent')
    (h : Retains cache text entry recent) : Retains cache text entry recent' := by
  rcases h with habsent | ⟨storedAt, hwithin⟩
  · exact Or.inl habsent
  · exact Or.inr ⟨storedAt, RecencyMap.within_mono hsub hwithin⟩

/-- Without a lifetime nothing expires. -/
theorem isExpired_of_lifetime (hlifetime : cache.lifetime = none) (now : Nat)
    (slot : Slot (Entry A)) : cache.isExpired now slot = false := by
  rw [RecencyMap.isExpired, hlifetime]

/-- The entry that is read is the one that is retained. -/
theorem entry_of_retains (hlifetime : cache.lifetime = none)
    (h : Retains cache text entry recent) (now : Nat) :
    QueryCache.entry cache now text = entry := by
  -- there is no slot and nothing is known, or the slot is found and has not expired
  rw [QueryCache.entry, RecencyMap.live?]
  rcases h with ⟨habsent, rfl⟩ | ⟨storedAt, hwithin⟩
  · rw [habsent]
    rfl
  · rw [RecencyMap.slot?_of_within hwithin]
    simp only [isExpired_of_lifetime hlifetime, Bool.false_eq_true, if_false, Option.getD_some]

/-- After a query text was revised no other has been used since. -/
theorem retains_revise_self (hlifetime : cache.lifetime = none)
    (h : Retains cache text entry recent) (now : Nat) (rule : Entry A → Option (Entry A)) :
    Retains (revise cache now text rule) text ((rule entry).getD entry) ∅ := by
  have hentry := entry_of_retains hlifetime h now
  cases hrule : rule entry with
  | none =>
    -- the slot, if there is one, only moves to the front
    rw [revise_of_none (by rw [hentry, hrule])]
    rcases h with ⟨habsent, rfl⟩ | ⟨storedAt, hwithin⟩
    · left
      rw [RecencyMap.slot?_touch_self, habsent]
      exact ⟨rfl, rfl⟩
    · right
      exact ⟨storedAt, RecencyMap.within_touch_self (RecencyMap.slot?_of_within hwithin)
        (isExpired_of_lifetime hlifetime now _)⟩
  | some replacement =>
    rw [revise_of_some (by rw [hentry, hrule])]
    exact Or.inr ⟨now, RecencyMap.within_insert_self cache now (.ofText text) replacement⟩

/-- Revising another query text lets at most its key pass, and does not push the entry out while
    the keys that have passed it do not fill the cache. -/
theorem retains_revise_of_ne (hne : Fingerprint.ofText text ≠ .ofText other)
    (h : Retains cache text entry recent)
    (hroom : (recent ∪ {Fingerprint.ofText other}).card < cache.capacity) (now : Nat)
    (rule : Entry A → Option (Entry A)) :
    Retains (revise cache now other rule) text entry (recent ∪ {.ofText other}) := by
  rcases h with ⟨habsent, rfl⟩ | ⟨storedAt, hwithin⟩
  · -- revising another text gives this one no slot
    left
    rcases slot?_revise_of_ne hne cache now rule with hkept | hgone
    · exact ⟨by rw [hkept, habsent], rfl⟩
    · exact ⟨hgone, rfl⟩
  · right
    -- whether something is stored or only read, one more key has been used
    refine ⟨storedAt, ?_⟩
    cases hrule : rule (QueryCache.entry cache now other) with
    | none =>
      rw [revise_of_none hrule]
      exact RecencyMap.within_touch_of_ne hne now hwithin
    | some replacement =>
      rw [revise_of_some hrule]
      exact RecencyMap.within_insert_of_ne hne now replacement hwithin hroom

end TieredQuery.QueryCache
