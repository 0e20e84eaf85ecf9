import Famicom.Picture.Frame
import Mathlib.Logic.Function.Basic

/-!
# What the fingerprint of a picture tells apart

A word is mixed into a digest by

```text
digest  ↦  (digest xor word) * prime   modulo 2 ^ 64,
```

and this loses nothing of either, as long as the other is known: an exclusive or is undone by another
one, and the multiplication by the inverse of its odd factor. So two digests that differ still
differ after the same word, and one digest becomes two different ones with two words.

A picture with one pixel changed is digested alike up to that pixel. There the two digests part, and
the pixels behind it, being the same in both, never bring them together again. So no change of a
single pixel goes unseen, wherever the pixel is and whatever it changes to.
-/

namespace Famicom

namespace Fingerprint

/-! ## One word -/

/-- The inverse of the multiplier. -/
def inverse : UInt64 := 0xce965057aff6957b

theorem prime_mul_inverse : prime * inverse = 1 := by decide

theorem mul_prime_injective : Function.Injective (· * prime) := by
  have hundone : Function.LeftInverse (· * inverse) (· * prime) := by
    intro digest
    change digest * prime * inverse = digest
    rw [UInt64.mul_assoc, prime_mul_inverse, UInt64.mul_one]
  exact hundone.injective

theorem mix_left_injective (word : UInt64) : Function.Injective (mix · word) :=
  fun _ _ h ↦ (UInt64.xor_left_inj word).mp (mul_prime_injective h)

theorem mix_right_injective (digest : UInt64) : Function.Injective (mix digest) :=
  fun _ _ h ↦ (UInt64.xor_right_inj digest).mp (mul_prime_injective h)

/-! ## Many words -/

/-- The digest after more words. -/
def extend (digest : UInt64) (words : List UInt32) : UInt64 :=
  words.foldl (fun digest w ↦ mix digest w.toUInt64) digest

theorem ofWords_eq_extend (words : Array UInt32) : ofWords words = extend basis words.toList :=
  (Array.foldl_toList _).symm

theorem extend_append (digest : UInt64) (words rest : List UInt32) :
    extend digest (words ++ rest) = extend (extend digest words) rest := List.foldl_append

/-- Digests that differ are not brought together by the same words. -/
theorem extend_injective (words : List UInt32) : Function.Injective (extend · words) := by
  induction words with
  | nil => exact fun _ _ h ↦ h
  | cons word rest ih => exact ih.comp (mix_left_injective word.toUInt64)

/-- Between the same words before it and behind it, the digest tells every word from every other. -/
theorem extend_eq_extend_iff (digest : UInt64) (before behind : List UInt32) (v w : UInt32) :
    extend digest (before ++ v :: behind) = extend digest (before ++ w :: behind) ↔ v = w := by
  rw [extend_append, extend_append]
  constructor
  · intro h
    have hmixed : mix (extend digest before) v.toUInt64 = mix (extend digest before) w.toUInt64 :=
      extend_injective behind h
    exact UInt32.toUInt64_inj.mp (mix_right_injective _ hmixed)
  · rintro rfl
    rfl

theorem ofWords_set_eq_iff {n : Nat} (words : Vector UInt32 n) {i : Nat} (hi : i < n)
    (v w : UInt32) :
    ofWords (words.set i v hi).toArray = ofWords (words.set i w hi).toArray ↔ v = w := by
  have hlength : i < words.toList.length := by rwa [Vector.length_toList]
  have hsplit (v : UInt32) : (words.set i v hi).toArray.toList =
      words.toList.take i ++ v :: words.toList.drop (i + 1) := by
    rw [Vector.toList_toArray, Vector.toList_set, List.set_eq_take_append_cons_drop, if_pos hlength]
  rw [ofWords_eq_extend, ofWords_eq_extend, hsplit, hsplit, extend_eq_extend_iff]

end Fingerprint

/-! ## Pictures -/

namespace FrameBuffer

/-- The checksum of what has been drawn tells every colour of a pixel from every other. -/
theorem checksum_swap_draw_eq_iff (f : FrameBuffer) {x y : Nat} (hx : x < 256) (hy : y < 240)
    (colour other : Colour) :
    (f.draw x y colour hx hy).swap.checksum = (f.draw x y other hx hy).swap.checksum ↔
      colour = other := Fingerprint.ofWords_set_eq_iff f.back (place_lt hx hy) colour other

/-- Pictures that agree but for one place have the same checksum only if they agree there, too. -/
theorem checksum_eq_iff {f g : FrameBuffer} {i : Fin pixelCount}
    (h : ∀ j, j ≠ i → f.front.get j = g.front.get j) :
    f.checksum = g.checksum ↔ f.front.get i = g.front.get i := by
  have hchanged : f.front.set i (g.front.get i) = g.front := by
    refine Vector.ext fun j hj ↦ ?_
    rw [Vector.getElem_set]
    split
    · next hplace =>
      subst hplace
      rfl
    · next hplace => exact h ⟨j, hj⟩ fun hji ↦ hplace (congrArg Fin.val hji).symm
  have hself : f.front.set i (f.front.get i) = f.front := Vector.set_getElem_self i.isLt
  have htold := Fingerprint.ofWords_set_eq_iff f.front i.isLt (f.front.get i) (g.front.get i)
  rwa [hself, hchanged] at htold

/-- Two pictures that differ in exactly one pixel have different checksums, whichever pixel it is and
whatever its two colours are. -/
theorem checksum_detects_pixel {f g : FrameBuffer}
    (h : ∃! i : Fin pixelCount, f.front.get i ≠ g.front.get i) : f.checksum ≠ g.checksum := by
  obtain ⟨i, hdiffer, honly⟩ := h
  have hagree : ∀ j, j ≠ i → f.front.get j = g.front.get j :=
    fun j hj ↦ by_contra fun hne ↦ hj (honly j hne)
  exact (checksum_eq_iff hagree).not.mpr hdiffer

theorem front_swap_draw (f : FrameBuffer) {x y : Nat} (hx : x < 256) (hy : y < 240)
    (colour : Colour) (i : Fin pixelCount) :
    (f.draw x y colour hx hy).swap.front.get i =
      if place x y = i.val then colour else f.back.get i :=
  Vector.getElem_set (place_lt hx hy) i.isLt

/-- A black picture and one with its last pixel in white. -/
theorem checksum_detects_pixel_last :
    let white := (blank.draw 255 239 0xffffffff (by decide) (by decide)).swap
    (∃! i : Fin pixelCount, blank.front.get i ≠ white.front.get i) ∧
      blank.checksum ≠ white.checksum := by
  intro white
  have hwhite (i : Fin pixelCount) :
      white.front.get i = if place 255 239 = i.val then 0xffffffff else blank.front.get i :=
    front_swap_draw blank (by decide) (by decide) 0xffffffff i
  have honly : ∃! i : Fin pixelCount, blank.front.get i ≠ white.front.get i := by
    refine ⟨⟨place 255 239, place_lt (by decide) (by decide)⟩, ?_, fun i hdiffer ↦ ?_⟩
    · dsimp only
      rw [hwhite, if_pos rfl]
      exact fun h ↦ absurd ((Vector.getElem_replicate _).symm.trans h) (by decide)
    · by_contra hother
      refine hdiffer ?_
      rw [hwhite, if_neg fun hplace ↦ hother (Fin.ext hplace.symm)]
  exact ⟨honly, checksum_detects_pixel honly⟩

end FrameBuffer

end Famicom
