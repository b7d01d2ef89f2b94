import Mathlib.Data.List.Induction
import Mathlib.Data.List.Nodup

/-!
# Bounded insertion-ordered maps

A map keeps its entries in the order in which their keys first came and, for
each key, the value that came last. It has room for a fixed number of keys: an
entry is refused exactly when its key is new and the map is full, so a key that
is held can always be given another value.

The meaning of a map is stated on the sequence of what it was offered: the keys
it holds are the first distinct ones, as many as there is room for, each with
the last value offered for it.
-/

namespace OrderedMap

universe u v
variable {κ : Type u} {ν : Type v} [DecidableEq κ]

/-- Set the value of a key in its place, or put a new key at the end. -/
def place (entry : κ × ν) : List (κ × ν) → List (κ × ν)
  | [] => [entry]
  | other :: rest => if other.1 = entry.1 then entry :: rest else other :: place entry rest

/-- The map is full and does not hold the key of the entry. -/
def Refused (cap : Nat) (entries : List (κ × ν)) (entry : κ × ν) : Prop :=
  entry.1 ∉ entries.map Prod.fst ∧ cap ≤ entries.length

instance (cap : Nat) (entries : List (κ × ν)) (entry : κ × ν) :
    Decidable (Refused cap entries entry) :=
  inferInstanceAs (Decidable (_ ∧ _))

/-- Offer one entry. -/
def offer (cap : Nat) (entries : List (κ × ν)) (entry : κ × ν) : List (κ × ν) :=
  if Refused cap entries entry then entries else place entry entries

/-- Offer a sequence of entries to an empty map. -/
def offerAll (cap : Nat) (given : List (κ × ν)) : List (κ × ν) := given.foldl (offer cap) []

/-- The first distinct keys of a sequence, as many as there is room for. -/
def heldKeys (cap : Nat) (keys : List κ) : List κ := keys.eraseDups.take cap

/-- The last value given for a key. -/
def lastValue (key : κ) : List (κ × ν) → Option ν
  | [] => none
  | entry :: rest => (lastValue key rest).or (if entry.1 = key then some entry.2 else none)

theorem last_value_append (key : κ) (front back : List (κ × ν)) :
    lastValue key (front ++ back) = (lastValue key back).or (lastValue key front) := by
  induction front with
  | nil => simp [lastValue]
  | cons entry rest ih => rw [List.cons_append, lastValue, lastValue, ih, Option.or_assoc]

/-- Another key of the last entry leaves the last value of a key as it is. -/
theorem last_value_other {key : κ} {entry : κ × ν} (other : entry.1 ≠ key)
    (given : List (κ × ν)) : lastValue key (given ++ [entry]) = lastValue key given := by
  simp [last_value_append, lastValue, other]

/-- Placing an entry brings its key to the end unless it is there. -/
theorem place_keys (entry : κ × ν) (entries : List (κ × ν)) :
    (place entry entries).map Prod.fst =
      if entry.1 ∈ entries.map Prod.fst then entries.map Prod.fst
      else entries.map Prod.fst ++ [entry.1] := by
  induction entries with
  | nil => rfl
  | cons other rest ih =>
    by_cases same : other.1 = entry.1
    · simp [place, same]
    · have apart : entry.1 ≠ other.1 := fun eq => same eq.symm
      rw [place, if_neg same, List.map_cons, ih]
      by_cases present : entry.1 ∈ rest.map Prod.fst
      · simp [present]
      · simp only [List.map_cons, List.mem_cons, apart, present, or_self, ↓reduceIte,
          List.cons_append]

/-- An entry of a map after placing is the one placed, or one of another key. -/
theorem mem_place {entry other : κ × ν} {entries : List (κ × ν)}
    (distinct : (entries.map Prod.fst).Nodup) (member : other ∈ place entry entries) :
    other = entry ∨ other.1 ≠ entry.1 ∧ other ∈ entries := by
  induction entries with
  | nil => exact Or.inl (List.mem_singleton.mp member)
  | cons first rest ih =>
    rw [List.map_cons, List.nodup_cons] at distinct
    by_cases same : first.1 = entry.1
    · rw [place, if_pos same] at member
      rcases List.mem_cons.mp member with isNew | inRest
      · exact Or.inl isNew
      · refine Or.inr ⟨?_, List.mem_cons_of_mem first inRest⟩
        intro also
        exact distinct.1 (List.mem_map.mpr ⟨other, inRest, also.trans same.symm⟩)
    · rw [place, if_neg same] at member
      rcases List.mem_cons.mp member with rfl | inRest
      · exact Or.inr ⟨same, List.mem_cons_self⟩
      · exact (ih distinct.2 inRest).imp_right fun kept =>
          ⟨kept.1, List.mem_cons_of_mem first kept.2⟩

/-- The held keys of a longer sequence: a key that is new while there is room
comes to the end, any other leaves them as they are. -/
theorem held_keys_append (cap : Nat) (keys : List κ) (key : κ) :
    heldKeys cap (keys ++ [key]) =
      if key ∈ heldKeys cap keys ∨ cap ≤ (heldKeys cap keys).length then heldKeys cap keys
      else heldKeys cap keys ++ [key] := by
  have extended : (keys ++ [key]).eraseDups =
      if key ∈ keys then keys.eraseDups else keys.eraseDups ++ [key] := by
    rw [List.eraseDups_append, List.cons_removeAll]
    by_cases present : key ∈ keys <;> simp [present, List.eraseDups_cons]
  have full : cap ≤ (heldKeys cap keys).length ↔ cap ≤ keys.eraseDups.length := by
    rw [heldKeys, List.length_take]
    omega
  simp only [full]
  rw [heldKeys, extended]
  by_cases room : cap ≤ keys.eraseDups.length
  · rw [if_pos (Or.inr room)]
    split_ifs
    · rfl
    · rw [List.take_append_of_le_length room]
      rfl
  · have whole : heldKeys cap keys = keys.eraseDups := List.take_of_length_le (by omega)
    rw [whole]
    by_cases present : key ∈ keys
    · have held : key ∈ keys.eraseDups := List.mem_eraseDups.mpr present
      rw [if_pos present, if_pos (Or.inl held), List.take_of_length_le (by omega)]
    · rw [if_neg present, if_neg (by simp [present, room])]
      apply List.take_of_length_le
      rw [List.length_append, List.length_singleton]
      omega

theorem held_keys_nodup (cap : Nat) (keys : List κ) : (heldKeys cap keys).Nodup := by
  induction keys using List.reverseRecOn with
  | nil => simp [heldKeys]
  | append_singleton keys key ih =>
    rw [held_keys_append]
    split_ifs with kept
    · exact ih
    · rw [List.nodup_append]
      refine ⟨ih, List.nodup_singleton key, ?_⟩
      intro held inKeys other isKey same
      exact kept (Or.inl (List.mem_singleton.mp isKey ▸ same ▸ inKeys))

theorem offer_all_append (cap : Nat) (given : List (κ × ν)) (entry : κ × ν) :
    offerAll cap (given ++ [entry]) = offer cap (offerAll cap given) entry := by
  simp [offerAll]

/-- A map holds the first distinct keys it was offered, in that order. -/
theorem offer_all_keys (cap : Nat) (given : List (κ × ν)) :
    (offerAll cap given).map Prod.fst = heldKeys cap (given.map Prod.fst) := by
  induction given using List.reverseRecOn with
  | nil => simp [offerAll, heldKeys]
  | append_singleton given entry ih =>
    have size := congrArg List.length ih
    rw [List.length_map] at size
    rw [offer_all_append, offer, List.map_append, List.map_singleton, held_keys_append, ← ih]
    by_cases present : entry.1 ∈ (offerAll cap given).map Prod.fst
    · rw [if_neg (fun refused => refused.1 present), if_pos (Or.inl present), place_keys,
        if_pos present]
    · by_cases full : cap ≤ (offerAll cap given).length
      · rw [if_pos ⟨present, full⟩, if_pos (Or.inr (by rwa [List.length_map]))]
      · have apart : ¬ (entry.1 ∈ (offerAll cap given).map Prod.fst ∨
            cap ≤ ((offerAll cap given).map Prod.fst).length) := by
          rw [List.length_map]
          exact not_or.mpr ⟨present, full⟩
        rw [if_neg (fun refused => full refused.2), if_neg apart, place_keys, if_neg present]

/-- Each key a map holds has the last value offered for it. -/
theorem offer_all_values (cap : Nat) (given : List (κ × ν)) :
    ∀ entry ∈ offerAll cap given, lastValue entry.1 given = some entry.2 := by
  induction given using List.reverseRecOn with
  | nil => simp [offerAll]
  | append_singleton given entry ih =>
    intro held member
    rw [offer_all_append, offer] at member
    split_ifs at member with refused
    · have other : entry.1 ≠ held.1 := by
        intro same
        exact refused.1 (same ▸ List.mem_map_of_mem member)
      rw [last_value_other other]
      exact ih held member
    · have distinct : ((offerAll cap given).map Prod.fst).Nodup := by
        rw [offer_all_keys]
        exact held_keys_nodup cap _
      rcases mem_place distinct member with rfl | ⟨other, kept⟩
      · simp [last_value_append, lastValue]
      · rw [last_value_other (fun same => other same.symm)]
        exact ih held kept

end OrderedMap
