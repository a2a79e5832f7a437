import RomAtlas.Image

/-!
# Bytes between offsets

What a listing shows and what a pointer table holds are bytes of the image from one offset up to
another.

* `Image.toList_slice`: a slice that lies in the image has all its bytes.
* `Image.take_drop_between`: bytes in the middle of others.
-/

namespace RomAtlas

/-- The bytes of an image from one offset up to another. -/
def Image.between (i : Image) (o e : Nat) : List UInt8 := (i.bytes.extract o e).toList

namespace Image

variable {i : Image} {o e f n k : Nat}

theorem getElem?_between : (i.between o e)[k]? = if o + k < e then i.bytes[o + k]? else none := by
  unfold between
  rw [Array.getElem?_toList, Array.getElem?_extract]
  by_cases hk : o + k < e
  · by_cases hsize : o + k < i.bytes.size
    · rw [if_pos (by omega), if_pos hk]
    · rw [if_neg (by omega), if_pos hk, Array.getElem?_eq_none (by omega)]
  · rw [if_neg (by omega), if_neg hk]

theorem between_append (hoe : o ≤ e) (hef : e ≤ f) :
    i.between o e ++ i.between e f = i.between o f := by
  unfold between
  rw [← Array.toList_append, Array.extract_append_extract, Nat.min_eq_left hoe,
    Nat.max_eq_right hef]

theorem length_between : (i.between o e).length = min e i.size - o := by
  unfold between size
  rw [Array.length_toList, Array.size_extract]

theorem length_between_add (h : o + n ≤ i.size) : (i.between o (o + n)).length = n := by
  rw [length_between]
  omega

/-- A list is a copy of the bytes from an offset on if it is so byte by byte. -/
theorem eq_between {l : List UInt8} (h : ∀ k < l.length, l[k]? = i.bytes[o + k]?) :
    l = i.between o (o + l.length) := by
  refine List.ext_getElem? fun k => ?_
  rw [getElem?_between]
  by_cases hk : k < l.length
  · rw [if_pos (by omega), h k hk]
  · rw [if_neg (by omega), List.getElem?_eq_none (by omega)]

theorem toList_slice (h : o + n ≤ i.size) : (i.slice o n).toList = i.between o (o + n) := by
  unfold slice between clampBound
  rw [if_neg (by omega), if_neg (by omega)]
  congr 2 <;> omega

/-- Bytes in the middle of others are the bytes at their own offsets. -/
theorem take_drop_between (h : o + k + n ≤ e) :
    ((i.between o e).drop k).take n = i.between (o + k) (o + k + n) := by
  refine List.ext_getElem? fun j => ?_
  rw [List.getElem?_take, List.getElem?_drop, getElem?_between, getElem?_between]
  by_cases hj : j < n
  · rw [if_pos hj, if_pos (by omega), if_pos (by omega), Nat.add_assoc]
  · rw [if_neg hj, if_neg (by omega)]

end Image

end RomAtlas
