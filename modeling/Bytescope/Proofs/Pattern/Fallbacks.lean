import Bytescope.Pattern.Basic
import Bytescope.Proofs.Pattern.Borders

/-!
# Going from border to border comes to an end

After a mismatch a search looks up the longest border of what matched, and goes on from there. What
it looks up is described here by itself, as a loop over a list of entries in which a look-up may
also fail. A loop that ends has a derivation, and a derivation has only look-ups that did not fail.

A table is made of a pattern by the same loop, which then sees no more than the entries made so
far. Each entry is shorter than the beginning that it belongs to, so that the loop ends in both
places.

## Main definitions

* `FallsBack`: the loop, from the number of bytes that matched before a byte to the number after it.
* `BorderTable.MadeBySearch`: every entry of a table is found in the entries before it.

## Main results

* `BorderTable.fallsBack_extend`: `BorderTable.extend` is the loop on the entries of a table.
* `BorderTable.madeBySearch_ofBytes`: the table of a pattern is made by the loop.
* `BorderTable.fallbacks_of_bytes`: the entries and the loops of the table of a pattern.
-/

namespace Bytescope

/-- The loop that reads a byte. While the byte does not go on with what matches, it looks up an
entry for what matches and goes on from there. -/
inductive FallsBack (pattern : List UInt8) (entries : List ℕ) (byte : UInt8) : ℕ → ℕ → Prop
  /-- The byte goes on with what matches. -/
  | hit {k : ℕ} (hbyte : pattern[k]? = some byte) : FallsBack pattern entries byte k (k + 1)
  /-- Nothing matches. -/
  | miss (hbyte : pattern[0]? ≠ some byte) : FallsBack pattern entries byte 0 0
  /-- An entry is there, and the loop goes on from it. -/
  | back {k border next : ℕ} (hbyte : pattern[k + 1]? ≠ some byte)
      (hentry : entries[k]? = some border) (hnext : FallsBack pattern entries byte border next) :
      FallsBack pattern entries byte (k + 1) next

/-- The loop can end in one way only. -/
theorem FallsBack.unique {pattern : List UInt8} {entries : List ℕ} {byte : UInt8} {k m n : ℕ}
    (hm : FallsBack pattern entries byte k m) (hn : FallsBack pattern entries byte k n) :
    m = n := by
  induction hm with
  | hit hbyte =>
    cases hn with
    | hit => rfl
    | miss hmiss => exact absurd hbyte hmiss
    | back hmiss => exact absurd hbyte hmiss
  | miss hmiss =>
    cases hn with
    | hit hbyte => exact absurd hbyte hmiss
    | miss => rfl
  | back hmiss hentry _ ih =>
    cases hn with
    | hit hbyte => exact absurd hbyte hmiss
    | back _ hentry' hnext =>
      obtain rfl := Option.some.inj (hentry.symm.trans hentry')
      exact ih hnext

namespace BorderTable

variable {bytes : Array UInt8} {t : BorderTable} {pattern : List UInt8} {byte : UInt8} {k : ℕ}

/-- The entry for any number of matching bytes is there, and it is a smaller number. -/
theorem exists_entry (hpos : 0 < k) (hk : k ≤ t.lengths.size) :
    ∃ border < k, t.lengths.toList[k - 1]? = some border := by
  have hlt : k - 1 < t.lengths.size := by omega
  have hle := t.length_le (k - 1) hlt
  exact ⟨t.lengths[k - 1], by omega, by rw [Array.getElem?_toList, Array.getElem?_eq_getElem hlt]⟩

/-- Reading a byte is the loop on the entries of the table. -/
theorem fallsBack_extend (hk : k ≤ t.lengths.size) :
    FallsBack bytes.toList t.lengths.toList byte k (t.extend bytes byte k hk) := by
  induction k using Nat.strongRecOn with
  | _ k ih =>
    unfold extend
    split
    next hbyte => exact .hit (Array.getElem?_toList.trans hbyte)
    next hbyte =>
      rw [← Array.getElem?_toList] at hbyte
      match k, hk with
      | 0, _ => exact .miss hbyte
      | k + 1, hk =>
        have hle := t.length_le k (by omega)
        have hentry : t.lengths.toList[k]? = some t.lengths[k] := by
          rw [Array.getElem?_toList, Array.getElem?_eq_getElem]
        exact .back hbyte hentry (ih _ (by omega) _)

/-! ### Making a table -/

/-- Every entry but the first is what the loop finds from the entry before it on, with no more than
the entries before it to look up. -/
def MadeBySearch (t : BorderTable) (pattern : List UInt8) : Prop :=
  ∀ i byte last next, pattern[i + 1]? = some byte → t.lengths.toList[i]? = some last →
    t.lengths.toList[i + 1]? = some next →
    FallsBack pattern (t.lengths.toList.take (i + 1)) byte last next

/-- One more entry that is found in the entries so far. -/
theorem MadeBySearch.push (ht : t.MadeBySearch pattern) (h : k ≤ t.lengths.size)
    (hk : ∀ byte last, pattern[t.lengths.size]? = some byte →
      t.lengths.toList.getLast? = some last →
      FallsBack pattern t.lengths.toList byte last k) :
    (t.push k h).MadeBySearch pattern := by
  have hpush : (t.push k h).lengths.toList = t.lengths.toList ++ [k] := Array.toList_push
  have hsize : t.lengths.toList.length = t.lengths.size := Array.length_toList
  intro i byte last next hbyte hlast hnext
  rw [hpush] at hlast hnext ⊢
  have hi : i + 1 ≤ t.lengths.size := by
    have hlt := (List.getElem?_eq_some_iff.mp hnext).1
    rw [List.length_append, List.length_singleton, hsize] at hlt
    omega
  rw [List.getElem?_append_left (by omega)] at hlast
  rw [List.take_append_of_le_length (by omega)]
  rcases Nat.lt_or_eq_of_le hi with hold | hnew
  · rw [List.getElem?_append_left (by omega)] at hnext
    exact ht i byte last next hbyte hlast hnext
  · rw [hnew, ← hsize, List.getElem?_concat_length] at hnext
    rw [hnew] at hbyte
    rw [List.take_of_length_le (by omega), ← Option.some.inj hnext]
    refine hk byte last hbyte ?_
    rwa [List.getLast?_eq_getElem?, hsize, ← hnew, Nat.add_sub_cancel]

theorem MadeBySearch.fill {rest : List UInt8} (ht : t.MadeBySearch bytes.toList)
    (hk : k < t.lengths.size) (hlast : t.lengths.toList.getLast? = some k)
    (hrest : bytes.toList.drop t.lengths.size = rest) :
    (t.fill bytes k hk rest).MadeBySearch bytes.toList := by
  induction rest generalizing t k with
  | nil => exact ht
  | cons byte rest ih =>
    unfold BorderTable.fill
    have hbyte : bytes.toList[t.lengths.size]? = some byte := by
      rw [← List.head?_drop, hrest]
      rfl
    have hsize (h) : (t.push (t.extend bytes byte k (Nat.le_of_lt hk)) h).lengths.size =
        t.lengths.size + 1 := Array.size_push _
    refine ih (ht.push _ fun byte' last hbyte' hlast' => ?_) _ ?_ ?_
    · obtain rfl := Option.some.inj (hbyte.symm.trans hbyte')
      obtain rfl := Option.some.inj (hlast.symm.trans hlast')
      exact fallsBack_extend _
    · rw [BorderTable.push, Array.toList_push, List.getLast?_concat]
    · rw [hsize, ← List.tail_drop, hrest, List.tail_cons]

/-- **Making the table** looks up no more than the entries that have been made. -/
theorem madeBySearch_ofBytes (bytes : Array UInt8) :
    (ofBytes bytes).MadeBySearch bytes.toList := by
  have hempty : empty.MadeBySearch bytes.toList := fun i byte last next _ hlast => by
    cases hlast
  unfold ofBytes
  split
  next => exact hempty
  next byte rest hbytes =>
    refine (hempty.push (Nat.zero_le _) fun byte last _ hlast => ?_).fill _ rfl ?_
    · cases hlast
    · rw [hbytes]
      rfl

/-! ### Reading a text -/

/-- What a tracker does with the number that the loop comes to. -/
theorem advance_eq_of_fallsBack {t : Tracker} {next : ℕ}
    (h : FallsBack t.pattern.bytes.toList t.pattern.borders.lengths.toList byte t.progress next) :
    (t.advance byte).1.progress = (if next = t.pattern.size then 0 else next) ∧
      (t.advance byte).2 = decide (next = t.pattern.size) := by
  have hk : t.progress ≤ t.pattern.borders.lengths.size := by
    rw [t.pattern.size_borders]
    exact Nat.le_of_lt t.progress_lt
  obtain rfl := h.unique (fallsBack_extend hk)
  have hle := t.pattern.borders.extend_le t.pattern.bytes byte t.progress hk
  have hlt := t.progress_lt
  unfold Tracker.advance
  dsimp only
  split
  next hpart => simp only [Nat.ne_of_lt hpart, ↓reduceIte, decide_false, and_self]
  next hfull =>
    have heq : t.pattern.borders.extend t.pattern.bytes byte t.progress hk = t.pattern.size := by
      omega
    simp only [heq, ↓reduceIte, decide_true, and_true]
    rfl

/-- **The border table and its loops.** The table of a pattern has an entry for each byte, the
length of the longest border of the beginning that ends with the byte. From any number of matching
bytes the loop falls back to a smaller number, and the entry for it is always there: while the
table is made, where the loop starts from the entry made last and looks up no other entries than
those made before, and while a text is read, whatever matches of the pattern and whatever the byte
is. -/
theorem fallbacks_of_bytes (bytes : Array UInt8) :
    (ofBytes bytes).lengths.size = bytes.size ∧
      (∀ i < bytes.size, ∃ border, (ofBytes bytes).lengths.toList[i]? = some border ∧
        LongestMatch bytes.toList (bytes.toList.take (i + 1)) (i + 1) border) ∧
      (∀ k, 0 < k → k ≤ bytes.size →
        ∃ border < k, (ofBytes bytes).lengths.toList[k - 1]? = some border) ∧
      (∀ i byte, bytes.toList[i + 1]? = some byte →
        ∃ last next, (ofBytes bytes).lengths.toList[i]? = some last ∧
          (ofBytes bytes).lengths.toList[i + 1]? = some next ∧
          FallsBack bytes.toList ((ofBytes bytes).lengths.toList.take (i + 1)) byte last next) ∧
      ∀ t : Tracker, t.pattern.bytes = bytes → ∀ byte, ∃ next,
        FallsBack bytes.toList (ofBytes bytes).lengths.toList byte t.progress next ∧
          (t.advance byte).1.progress = (if next = bytes.size then 0 else next) ∧
          (t.advance byte).2 = decide (next = bytes.size) := by
  have hsize := size_ofBytes bytes
  have hentry (i : ℕ) (hi : i < bytes.size) : (ofBytes bytes).lengths.toList[i]? =
      some ((ofBytes bytes).lengths[i]) := by
    rw [Array.getElem?_toList, Array.getElem?_eq_getElem]
  refine ⟨hsize, fun i hi => ⟨_, hentry i hi, ?_⟩, fun k hpos hk => ?_, fun i byte hbyte => ?_, ?_⟩
  · exact longest_ofBytes bytes i _
  · exact exists_entry hpos (hsize.symm ▸ hk)
  · have hi : i + 1 < bytes.size := by
      have hlt := (List.getElem?_eq_some_iff.mp hbyte).1
      rwa [Array.length_toList] at hlt
    have hlast := hentry i (by omega)
    have hnext := hentry (i + 1) hi
    exact ⟨_, _, hlast, hnext, madeBySearch_ofBytes bytes i byte _ _ hbyte hlast hnext⟩
  · rintro t rfl byte
    have hk : t.progress ≤ t.pattern.borders.lengths.size := by
      rw [t.pattern.size_borders]
      exact Nat.le_of_lt t.progress_lt
    have hloop : FallsBack t.pattern.bytes.toList t.pattern.borders.lengths.toList byte
        t.progress _ := fallsBack_extend hk
    refine ⟨_, t.pattern.borders_eq ▸ hloop, advance_eq_of_fallsBack hloop⟩

/-- A pattern that begins again before it ends. The last entry is found by falling back from two
matching bytes to one, and so is what matches when the tracker reads a byte that does not go on with
the whole of what matched. -/
theorem fallbacks_of_bytes_repetitive :
    (ofBytes #[1, 1, 2, 1, 1, 1]).lengths.toList = [0, 1, 0, 1, 2, 2] ∧
      LongestMatch [1, 1, 2, 1, 1, 1] [1, 1, 2, 1, 1, 1] 6 2 ∧
      FallsBack [1, 1, 2, 1, 1, 1] [0, 1, 0, 1, 2] 1 2 2 ∧
      ∃ t : Tracker, t.pattern.bytes = #[1, 1, 2, 1, 1, 1] ∧ t.progress = 5 ∧
        (t.advance 2).1.progress = 3 ∧ (t.advance 2).2 = false := by
  have htable : (ofBytes #[1, 1, 2, 1, 1, 1]).lengths.toList = [0, 1, 0, 1, 2, 2] := by
    cbv
  obtain ⟨-, hborders, -, hmaking, hreading⟩ := fallbacks_of_bytes #[1, 1, 2, 1, 1, 1]
  obtain ⟨border, hborder, hlongest⟩ := hborders 5 (by decide)
  obtain ⟨last, next, hlast, hnext, hmade⟩ := hmaking 4 1 rfl
  rw [htable] at hborder hlast hnext hmade
  obtain rfl := Option.some.inj hborder
  obtain rfl := Option.some.inj hlast
  obtain rfl := Option.some.inj hnext
  let p : Pattern := ⟨#[1, 1, 2, 1, 1, 1], 64, 0, ⟨false, true⟩, by decide, _, rfl⟩
  let t : Tracker := ⟨p, 5, by decide⟩
  obtain ⟨read, hread, hprogress, hdone⟩ := hreading t rfl 2
  rw [htable] at hread
  obtain rfl : read = 3 := hread.unique (.back (by decide) rfl (.hit rfl))
  exact ⟨htable, hlongest, hmade, t, rfl, rfl, hprogress, hdone⟩

end BorderTable

end Bytescope
