import TeamAttack.Library.RustStr

/-! # Character boundaries

    Where a `str` may be cut.  A byte below 128 is a whole character, so its
    position is a boundary whatever surrounds it; so is the length of any
    prefix. -/

namespace RustStr

theorem byteLen_append (s t : Str) : byteLen (s ++ t) = byteLen s + byteLen t := by
  rw [byteLen, List.map_append, List.sum_append]
  rfl

theorem byteLen_cons (c : Char) (s : Str) : byteLen (c :: s) = c.utf8Size + byteLen s := rfl

theorem length_bytes (s : Str) : (bytes s).length = byteLen s := by
  induction s with
  | nil => rfl
  | cons c s ih =>
      show (String.utf8EncodeChar c ++ bytes s).length = _
      rw [List.length_append, ih, String.length_utf8EncodeChar, byteLen_cons]

/-- A text splits behind any of its prefixes. -/
theorem splitAtByte?_append (s t : Str) : splitAtByte? (s ++ t) (byteLen s) = some (s, t) := by
  induction s with
  | nil => cases t <;> rfl
  | cons c s ih =>
      have hpos := c.utf8Size_pos
      obtain ⟨n, hn⟩ := Nat.exists_eq_succ_of_ne_zero (n := byteLen (c :: s))
        (by rw [byteLen_cons]; omega)
      rw [byteLen_cons] at hn
      have hrest : n + 1 - c.utf8Size = byteLen s := by omega
      rw [List.cons_append, byteLen_cons, hn, splitAtByte?, if_pos (by omega), hrest, ih]
      rfl

theorem sliceTo?_append (s t : Str) : sliceTo? (s ++ t) (byteLen s) = some s := by
  rw [sliceTo?, splitAtByte?_append]
  rfl

/-- The parts of a text that was cut. -/
theorem splitAtByte?_parts {s front back : Str} {n : Nat}
    (h : splitAtByte? s n = some (front, back)) : s = front ++ back ∧ byteLen front = n := by
  induction s generalizing n front with
  | nil =>
      cases n with
      | zero =>
          cases h
          exact ⟨rfl, rfl⟩
      | succ n => cases h
  | cons c s ih =>
      cases n with
      | zero =>
          cases h
          exact ⟨rfl, rfl⟩
      | succ n =>
          rw [splitAtByte?] at h
          -- the character fits before the cut, or the cut falls inside it
          split at h
          · rename_i hsize
            obtain ⟨⟨head, tail⟩, hsplit, hparts⟩ := Option.map_eq_some_iff.mp h
            cases hparts
            obtain ⟨rfl, hlen⟩ := ih hsplit
            refine ⟨rfl, ?_⟩
            rw [byteLen_cons, hlen]
            omega
          · cases h

/-- The part between two prefixes. -/
theorem slice?_append (s t u : Str) :
    slice? (s ++ (t ++ u)) (byteLen s) (byteLen s + byteLen t) = some t := by
  rw [slice?, if_pos (Nat.le_add_right _ _), splitAtByte?_append, Option.bind_some,
    Nat.add_sub_cancel_left, sliceTo?_append]

/-- A byte below 128 is a boundary.  By induction on the text: within a
    character of several bytes every byte is 128 or more. -/
theorem splitAtByte?_at_ascii {s : Str} {n : Nat} {b : UInt8} (h : (bytes s)[n]? = some b)
    (hb : b.toNat < 128) : ∃ parts, splitAtByte? s n = some parts := by
  induction s generalizing n with
  | nil => cases h
  | cons c s ih =>
      cases n with
      | zero => exact ⟨([], c :: s), rfl⟩
      | succ n =>
          have hlength : (String.utf8EncodeChar c).length = c.utf8Size :=
            String.length_utf8EncodeChar c
          rw [show bytes (c :: s) = String.utf8EncodeChar c ++ bytes s from rfl] at h
          by_cases hsize : c.utf8Size ≤ n + 1
          · rw [List.getElem?_append_right (by omega), hlength] at h
            obtain ⟨parts, hparts⟩ := ih h
            rw [splitAtByte?, if_pos hsize, hparts]
            exact ⟨_, rfl⟩
          · rw [List.getElem?_append_left (by omega)] at h
            -- a position inside a character: the character is wide
            have hwide : isAscii c = false := by
              rw [← Bool.not_eq_true]
              intro hascii
              rw [utf8Size_ascii hascii] at hsize
              omega
            have hhigh := utf8EncodeChar_high hwide b (List.mem_of_getElem? h)
            omega

/-- A text is cut at a byte below 128. -/
theorem sliceTo?_at_ascii {s : Str} {n : Nat} {b : UInt8} (h : (bytes s)[n]? = some b)
    (hb : b.toNat < 128) : ∃ kept, sliceTo? s n = some kept := by
  obtain ⟨parts, hparts⟩ := splitAtByte?_at_ascii h hb
  rw [sliceTo?, hparts]
  exact ⟨parts.1, rfl⟩

end RustStr
