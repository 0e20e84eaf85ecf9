import Mathlib.Data.List.Nodup
import Famicom.Proofs.Picture.Dot

/-!
# The beam follows the raster

Whether the picture is rendered may change with every dot. Here the beam is followed from a reset
through any infinite sequence of such answers, and its way is found to be the raster: all places of
a frame, line by line, over and over again. On the standard that drops a dot an odd frame may leave
out one place, the last of the pre-render line, and a single answer decides, the one given on the
place before it.

If the places of a frame are counted from zero, the place number `k` is

```text
line  =  k / 341 - 1,      dot  =  k % 341,
```

and each dot goes on to the next number. A frame that leaves out its place 340 skips that number
(`Beam.rasterIndex`), and nothing else about it depends on what is rendered. So the dots at which
the frames start can be counted without a beam (`Beam.frameStart`), and the beam itself is known
from the number of the frame and the dots since then (`Beam.path_frameStart_add`).
-/

namespace Famicom

namespace Beam

/-! ## Places -/

/-- Where the beam is, as line and dot. -/
def place (b : Beam) : Int × Nat := (b.line, b.dot)

/-- The places of a frame, line by line. -/
def raster (tv : Television) : List (Int × Nat) :=
  (List.range tv.lines).flatMap fun line : Nat ↦
    (List.range Television.dotsPerLine).map fun dot ↦ ((line : Int) - 1, dot)

/-- The last place of the pre-render line. -/
def droppedPlace : Int × Nat := (preRenderLine, 340)

/-- The place number `k` of a frame. -/
def rasterPlace (k : Nat) : Int × Nat := (((k / 341 : Nat) : Int) - 1, k % 341)

theorem rasterPlace_injective : Function.Injective rasterPlace := by
  intro j k h
  obtain ⟨hline, hdot⟩ := Prod.mk.inj h
  omega

theorem rasterPlace_add (line : Nat) {dot : Nat} (h : dot < 341) :
    rasterPlace (341 * line + dot) = ((line : Int) - 1, dot) := by
  rw [rasterPlace, Nat.mul_add_div (by decide), Nat.div_eq_of_lt h, Nat.mul_add_mod,
    Nat.mod_eq_of_lt h, Nat.add_zero]

theorem rasterPlace_succ_of_lt {k : Nat} (h : k % 341 + 1 < 341) :
    rasterPlace (k + 1) = ((rasterPlace k).1, (rasterPlace k).2 + 1) :=
  Prod.ext (by simp only [rasterPlace]; omega) (by simp only [rasterPlace]; omega)

theorem rasterPlace_succ_of_not_lt {k : Nat} (h : ¬k % 341 + 1 < 341) :
    rasterPlace (k + 1) = ((rasterPlace k).1 + 1, 0) :=
  Prod.ext (by simp only [rasterPlace]; omega) (by simp only [rasterPlace]; omega)

/-- The raster goes through the places in the order of their numbers. -/
theorem raster_eq_map (tv : Television) :
    raster tv = (List.range tv.dotsPerFrame).map rasterPlace := by
  have hlines (lines : Nat) :
      ((List.range lines).flatMap fun line : Nat ↦
        (List.range Television.dotsPerLine).map fun dot ↦ ((line : Int) - 1, dot)) =
        (List.range (341 * lines)).map rasterPlace := by
    induction lines with
    | zero => rfl
    | succ lines ih =>
      rw [List.range_succ, List.flatMap_append, ih, Nat.mul_succ, List.range_add, List.map_append,
        List.flatMap_singleton, List.map_map]
      refine congrArg _ (List.map_congr_left fun dot hdot ↦ ?_)
      exact (rasterPlace_add lines (List.mem_range.mp hdot)).symm
  exact hlines tv.lines

theorem nodup_raster (tv : Television) : (raster tv).Nodup := by
  rw [raster_eq_map]
  exact List.nodup_range.map rasterPlace_injective

theorem mem_raster_iff {tv : Television} {line : Int} {dot : Nat} :
    (line, dot) ∈ raster tv ↔ -1 ≤ line ∧ line ≤ tv.lines - 2 ∧ dot ≤ 340 := by
  simp only [raster, List.mem_flatMap, List.mem_map, List.mem_range, Television.dotsPerLine,
    Prod.mk.injEq]
  constructor
  · rintro ⟨i, hi, j, hj, rfl, rfl⟩
    omega
  · rintro ⟨hleast, hmost, hdot⟩
    exact ⟨(line + 1).toNat, by omega, dot, by omega, by omega, rfl⟩

/-- The number of the place that a frame visits as its `k`-th, where `drops` tells whether it leaves
out place 340. -/
def rasterIndex (drops : Bool) (k : Nat) : Nat := if drops ∧ 340 ≤ k then k + 1 else k

theorem rasterIndex_of_lt {k : Nat} (drops : Bool) (h : k < 340) : rasterIndex drops k = k :=
  if_neg fun hdrop ↦ absurd hdrop.2 (Nat.not_le_of_lt h)

/-- The places that a frame visits: all, or all but the one that is left out. -/
theorem map_rasterIndex (tv : Television) (drops : Bool) :
    (List.range (tv.dotsPerFrame - drops.toNat)).map (fun k ↦ rasterPlace (rasterIndex drops k)) =
      if drops then (raster tv).erase droppedPlace else raster tv := by
  have hlines := television_lines tv
  cases drops with
  | false =>
    rw [if_neg Bool.false_ne_true, raster_eq_map]
    refine List.map_congr_left fun k _ ↦ ?_
    rw [rasterIndex, if_neg fun h ↦ Bool.false_ne_true h.1]
  | true =>
    obtain ⟨rest, hrest⟩ : ∃ rest, tv.dotsPerFrame = 340 + (1 + rest) :=
      ⟨tv.dotsPerFrame - 341, by rw [Television.dotsPerFrame, Television.dotsPerLine]; omega⟩
    have hdropped : droppedPlace = rasterPlace 340 := rfl
    have hlength : 340 + (1 + rest) - true.toNat = 340 + rest := by rw [Bool.toNat_true]; omega
    rw [if_pos rfl, raster_eq_map, hdropped, ← List.map_erase rasterPlace_injective, hrest, hlength,
      List.erase_range, Nat.min_eq_right (by omega), List.range_add, List.map_append,
      List.map_append, List.range'_eq_map_range, List.map_map, List.map_map]
    refine congrArg₂ _ (List.map_congr_left fun k hk ↦ ?_) ?_
    · rw [rasterIndex_of_lt true (List.mem_range.mp hk)]
    · rw [show 340 + (1 + rest) - (340 + 1) = rest by omega]
      refine List.map_congr_left fun k _ ↦ ?_
      rw [Function.comp_apply, Function.comp_apply, rasterIndex, if_pos ⟨rfl, by omega⟩]
      exact congrArg _ (by omega)

/-! ## One dot -/

section OnPlace

variable (tv : Television) (m : Nat)

/-- The beam on the place number `k` of the frame number `m`. -/
def onPlace (k : Nat) : Beam where
  television := tv
  line := (rasterPlace k).1
  dot := (rasterPlace k).2
  oddFrame := decide (m % 2 = 1)
  frames := m

theorem place_onPlace (k : Nat) : (onPlace tv m k).place = rasterPlace k := rfl

theorem line_onPlace (k : Nat) : (onPlace tv m k).line = ((k / 341 : Nat) : Int) - 1 := rfl

theorem dot_onPlace (k : Nat) : (onPlace tv m k).dot = k % 341 := rfl

theorem lastLine_onPlace (k : Nat) : (onPlace tv m k).lastLine = tv.lines - 2 := rfl

/-- The frame number `m` leaves out its place 340 where `rendering` is the answer on place 339. -/
def leavesOut (rendering : Bool) : Bool := decide (tv = .ntsc ∧ m % 2 = 1) && rendering

theorem dropsDot_onPlace (k : Nat) (rendering : Bool) :
    (onPlace tv m k).dropsDot rendering = (decide (k = 339) && leavesOut tv m rendering) := by
  have hplace : (onPlace tv m k).isAt preRenderLine (Television.dotsPerLine - 2) =
      decide (k = 339) := by
    rw [Bool.eq_iff_iff, isAt, Bool.and_eq_true, beq_iff_eq, beq_iff_eq, decide_eq_true_iff]
    change ((k / 341 : Nat) : Int) - 1 = -1 ∧ k % 341 = 339 ↔ k = 339
    omega
  have htv : tv.dropsOddDot = decide (tv = .ntsc) := by cases tv <;> rfl
  rw [dropsDot, hplace, leavesOut, Bool.decide_and, ← htv]
  change (decide (k = 339) && decide (m % 2 = 1) && rendering && tv.dropsOddDot) = _
  ac_rfl

/-- A dot goes on to the next place of the frame, over one that is left out. -/
theorem advance_onPlace {k : Nat} (rendering : Bool) (h : k + 1 < tv.dotsPerFrame) :
    (onPlace tv m k).advance rendering =
      (false, onPlace tv m
        (if k = 339 ∧ leavesOut tv m rendering = true then 341 else k + 1)) := by
  rw [Television.dotsPerFrame, Television.dotsPerLine] at h
  have hdrop := dropsDot_onPlace tv m k rendering
  by_cases hout : k = 339 ∧ leavesOut tv m rendering = true
  · rw [if_pos hout, advance, if_pos (by rw [hdrop, hout.2, decide_eq_true hout.1]; rfl)]
    rfl
  · have hstay : ¬(onPlace tv m k).dropsDot rendering = true := by
      rw [hdrop, Bool.and_eq_true, decide_eq_true_iff]
      exact hout
    rw [if_neg hout, advance, if_neg hstay]
    -- the number after `k` is the next dot of the line, or the first one of the next line
    by_cases hdot : (onPlace tv m k).dot + 1 < Television.dotsPerLine
    · rw [if_pos hdot, onPlace, onPlace, rasterPlace_succ_of_lt hdot]
    · have hline : (onPlace tv m k).line < (onPlace tv m k).lastLine := by
        rw [dot_onPlace, Television.dotsPerLine] at hdot
        rw [line_onPlace, lastLine_onPlace]
        omega
      rw [if_neg hdot, if_pos hline, onPlace, onPlace, rasterPlace_succ_of_not_lt hdot]

/-- The dot on the last place of a frame ends it. -/
theorem advance_onPlace_last {k : Nat} (rendering : Bool) (h : k + 1 = tv.dotsPerFrame) :
    (onPlace tv m k).advance rendering = (true, onPlace tv (m + 1) 0) := by
  have hlines := television_lines tv
  rw [Television.dotsPerFrame, Television.dotsPerLine] at h
  have hstay : ¬(onPlace tv m k).dropsDot rendering = true := by
    rw [dropsDot_onPlace, decide_eq_false (by omega), Bool.false_and]
    exact Bool.false_ne_true
  have hdot : ¬(onPlace tv m k).dot + 1 < Television.dotsPerLine := by
    rw [dot_onPlace, Television.dotsPerLine]
    omega
  have hline : ¬(onPlace tv m k).line < (onPlace tv m k).lastLine := by
    rw [line_onPlace, lastLine_onPlace]
    omega
  have hodd : (!decide (m % 2 = 1)) = decide ((m + 1) % 2 = 1) := by
    rw [← decide_not, decide_eq_decide]
    omega
  rw [advance, if_neg hstay, if_neg hdot, if_neg hline, onPlace, onPlace, ← hodd]
  rfl

end OnPlace

/-- A dot ends a frame just where it takes the beam from the last place to the first. -/
theorem IsOnFrame.advance_fst_iff {b : Beam} (h : b.IsOnFrame) (rendering : Bool) :
    (b.advance rendering).1 = true ↔
      b.place = (b.lastLine, 340) ∧ (b.advance rendering).2.place = (-1, 0) := by
  obtain ⟨hge, hle, hdot⟩ := h
  have hlines := television_lines b.television
  rw [lastLine_eq] at hle ⊢
  rw [Television.dotsPerLine] at hdot
  rcases b.advance_cases rendering with ⟨hline, -, -, h⟩ | ⟨hnext, h⟩ | ⟨-, hline, h⟩ |
    ⟨hend, hline, h⟩ <;> rw [h] <;> simp only [place, Prod.mk.injEq]
  · exact iff_of_false Bool.false_ne_true (by omega)
  · exact iff_of_false Bool.false_ne_true (by omega)
  · rw [lastLine_eq] at hline
    exact iff_of_false Bool.false_ne_true (by omega)
  · rw [lastLine_eq] at hline
    exact iff_of_true trivial ⟨⟨by omega, by omega⟩, trivial⟩

/-- The frames are counted as they end. -/
theorem frames_advance (b : Beam) (rendering : Bool) :
    (b.advance rendering).2.frames = b.frames + (b.advance rendering).1.toNat := by
  rcases b.advance_cases rendering with ⟨-, -, -, h⟩ | ⟨-, h⟩ | ⟨-, -, h⟩ | ⟨-, -, h⟩ <;> rw [h] <;>
    rfl

/-! ## All dots -/

section Path

variable (b : Beam) (tv : Television) (rendering : Nat → Bool)

/-- The beam a reset and `n` dots later, where `rendering i` tells whether the picture is rendered
on the dot number `i`. -/
def path : Nat → Beam
  | 0 => b.reset
  | n + 1 => ((path n).advance (rendering n)).2

/-- The dot number `n` ends a frame. -/
def ends (n : Nat) : Bool := ((b.path rendering n).advance (rendering n)).1

/-- The dots of the frame number `m`, which starts at the dot number `start`. -/
def frameDots (m start : Nat) : Nat :=
  if tv = .ntsc ∧ m % 2 = 1 ∧ rendering (start + 339) = true then 341 * tv.lines - 1
  else 341 * tv.lines

/-- The dot at which the frame number `m` starts. -/
def frameStart : Nat → Nat
  | 0 => 0
  | m + 1 => frameStart m + frameDots tv rendering m (frameStart m)

theorem leavesOut_eq_true_iff (m : Nat) (r : Bool) :
    leavesOut tv m r = true ↔ tv = .ntsc ∧ m % 2 = 1 ∧ r = true := by
  rw [leavesOut, Bool.and_eq_true, decide_eq_true_iff, and_assoc]

theorem frameDots_eq (m start : Nat) :
    frameDots tv rendering m start =
      tv.dotsPerFrame - (leavesOut tv m (rendering (start + 339))).toNat := by
  simp only [frameDots, ← leavesOut_eq_true_iff]
  cases leavesOut tv m (rendering (start + 339)) <;> rfl

theorem dotsPerLine_lt_frameDots (m start : Nat) : 341 < frameDots tv rendering m start := by
  have hlines := television_lines tv
  have hdrop := Bool.toNat_le (leavesOut tv m (rendering (start + 339)))
  rw [frameDots_eq, Television.dotsPerFrame, Television.dotsPerLine]
  omega

theorem frameDots_pos (m start : Nat) : 0 < frameDots tv rendering m start :=
  Nat.lt_of_le_of_lt (Nat.zero_le _) (dotsPerLine_lt_frameDots tv rendering m start)

variable {tv rendering}

/-- A dot in a frame other than its last goes on to the frame's next place. -/
theorem advance_rasterIndex {m start k : Nat} (h : k + 1 < frameDots tv rendering m start) :
    (onPlace tv m (rasterIndex (leavesOut tv m (rendering (start + 339))) k)).advance
        (rendering (start + k)) =
      (false, onPlace tv m (rasterIndex (leavesOut tv m (rendering (start + 339))) (k + 1))) := by
  rw [frameDots_eq] at h
  have hlines : 262 * 341 ≤ tv.dotsPerFrame := by
    have := television_lines tv
    rw [Television.dotsPerFrame, Television.dotsPerLine]
    omega
  cases hdrop : leavesOut tv m (rendering (start + 339)) with
  | false =>
    -- the answers on the other places are never asked for, so `k = 339` is the one case to exclude
    rw [hdrop, Bool.toNat_false] at h
    have hkeep : ¬(k = 339 ∧ leavesOut tv m (rendering (start + k)) = true) := by
      rintro ⟨rfl, hout⟩
      exact Bool.false_ne_true (hdrop.symm.trans hout)
    rw [rasterIndex, rasterIndex, if_neg fun h ↦ Bool.false_ne_true h.1,
      if_neg fun h ↦ Bool.false_ne_true h.1, advance_onPlace tv m _ h, if_neg hkeep]
  | true =>
    -- up to place 338 the numbers agree, place 339 skips one, and all later ones lie one ahead
    rw [hdrop, Bool.toNat_true] at h
    rcases Nat.lt_trichotomy k 339 with hbefore | rfl | hafter
    · rw [rasterIndex_of_lt true (by omega), rasterIndex_of_lt true (by omega),
        advance_onPlace tv m _ (by omega), if_neg fun h ↦ absurd h.1 (by omega)]
    · rw [rasterIndex_of_lt true (by decide), advance_onPlace tv m _ (by omega),
        if_pos ⟨rfl, hdrop⟩]
      rfl
    · rw [rasterIndex, rasterIndex, if_pos ⟨rfl, by omega⟩, if_pos ⟨rfl, by omega⟩,
        advance_onPlace tv m _ (by omega), if_neg fun h ↦ absurd h.1 (by omega)]

theorem advance_rasterIndex_last {m start k : Nat}
    (h : k + 1 = frameDots tv rendering m start) :
    (onPlace tv m (rasterIndex (leavesOut tv m (rendering (start + 339))) k)).advance
        (rendering (start + k)) =
      (true, onPlace tv (m + 1) 0) := by
  have hlong := dotsPerLine_lt_frameDots tv rendering m start
  rw [frameDots_eq] at h hlong
  refine advance_onPlace_last tv m _ ?_
  cases hdrop : leavesOut tv m (rendering (start + 339)) with
  | false =>
    rw [hdrop, Bool.toNat_false] at h
    rw [rasterIndex, if_neg fun h ↦ Bool.false_ne_true h.1]
    exact h
  | true =>
    rw [hdrop, Bool.toNat_true] at h
    rw [rasterIndex, if_pos ⟨rfl, by omega⟩]
    omega

/-- A frame that starts on its first place goes through the places of its kind. -/
theorem path_add {m start k : Nat} (hstart : b.path rendering start = onPlace tv m 0)
    (h : k < frameDots tv rendering m start) :
    b.path rendering (start + k) =
      onPlace tv m (rasterIndex (leavesOut tv m (rendering (start + 339))) k) := by
  induction k with
  | zero =>
    rw [rasterIndex_of_lt _ (by decide)]
    exact hstart
  | succ k ih =>
    rw [← Nat.add_assoc, path, ih (Nat.lt_of_succ_lt h), advance_rasterIndex h]

variable (rendering)

/-- Every dot belongs to one of the frames. -/
theorem exists_frame (tv : Television) (n : Nat) :
    ∃ m k, k < frameDots tv rendering m (frameStart tv rendering m) ∧
      n = frameStart tv rendering m + k := by
  induction n with
  | zero => exact ⟨0, 0, frameDots_pos tv rendering _ _, rfl⟩
  | succ n ih =>
    obtain ⟨m, k, hk, rfl⟩ := ih
    rcases Nat.lt_or_eq_of_le (Nat.succ_le_of_lt hk) with hnext | hlast
    · exact ⟨m, k + 1, hnext, rfl⟩
    · refine ⟨m + 1, 0, frameDots_pos tv rendering _ _, ?_⟩
      rw [frameStart, ← hlast]
      rfl

theorem path_frameStart (m : Nat) :
    b.path rendering (frameStart b.television rendering m) = onPlace b.television m 0 := by
  induction m with
  | zero => rfl
  | succ m ih =>
    obtain ⟨last, hlast⟩ : ∃ last,
        last + 1 = frameDots b.television rendering m (frameStart b.television rendering m) :=
      ⟨_, Nat.sub_add_cancel (frameDots_pos b.television rendering _ _)⟩
    rw [frameStart, ← hlast, ← Nat.add_assoc, path, path_add b ih (by omega),
      advance_rasterIndex_last hlast]

/-- Which frame the beam is in and how far tells its place, and whether it ends the frame. -/
theorem path_frameStart_add {m k : Nat}
    (h : k < frameDots b.television rendering m (frameStart b.television rendering m)) :
    b.path rendering (frameStart b.television rendering m + k) =
        onPlace b.television m (rasterIndex (leavesOut b.television m
          (rendering (frameStart b.television rendering m + 339))) k) ∧
      (b.ends rendering (frameStart b.television rendering m + k) = true ↔
        k + 1 = frameDots b.television rendering m (frameStart b.television rendering m)) := by
  have hpath := path_add b (b.path_frameStart rendering m) h
  refine ⟨hpath, ?_⟩
  rw [ends, hpath]
  rcases Nat.lt_or_eq_of_le (Nat.succ_le_of_lt h) with hnext | hlast
  · rw [advance_rasterIndex hnext]
    exact iff_of_false Bool.false_ne_true (Nat.ne_of_lt hnext)
  · rw [advance_rasterIndex_last hlast]
    exact iff_of_true rfl hlast

theorem ends_iff_frameStart (n : Nat) :
    b.ends rendering n = true ↔ ∃ m, n + 1 = frameStart b.television rendering (m + 1) := by
  constructor
  · intro hends
    obtain ⟨m, k, hk, rfl⟩ := exists_frame rendering b.television n
    have hlast := (b.path_frameStart_add rendering hk).2.mp hends
    exact ⟨m, by rw [frameStart, ← hlast, Nat.add_assoc]⟩
  · rintro ⟨m, hm⟩
    have hpos := frameDots_pos b.television rendering m (frameStart b.television rendering m)
    rw [frameStart] at hm
    obtain ⟨k, rfl⟩ : ∃ k, n = frameStart b.television rendering m + k :=
      ⟨n - frameStart b.television rendering m, by omega⟩
    exact (b.path_frameStart_add rendering (by omega)).2.mpr (by omega)

theorem isOnFrame_path (n : Nat) : (b.path rendering n).IsOnFrame := by
  induction n with
  | zero => exact b.isOnFrame_reset
  | succ n ih => exact ih.advance (rendering n)

/-- At every dot the beam is on a place of a frame whose number it has counted. -/
theorem exists_path_eq_onPlace (n : Nat) :
    ∃ m k, b.path rendering n = onPlace b.television m k := by
  obtain ⟨m, k, hk, rfl⟩ := exists_frame rendering b.television n
  exact ⟨m, _, (b.path_frameStart_add rendering hk).1⟩

/-- The places of a frame, in the order in which the beam comes to them. -/
theorem map_place_path (m : Nat) :
    (List.range (frameDots b.television rendering m (frameStart b.television rendering m))).map
        (fun k ↦ (b.path rendering (frameStart b.television rendering m + k)).place) =
      if leavesOut b.television m (rendering (frameStart b.television rendering m + 339)) then
        (raster b.television).erase droppedPlace
      else raster b.television := by
  rw [← map_rasterIndex, ← frameDots_eq]
  refine List.map_congr_left fun k hk ↦ ?_
  rw [(b.path_frameStart_add rendering (List.mem_range.mp hk)).1, place_onPlace]

end Path

/-- **The beam follows the raster.** After a reset, as when it is new, the beam stays on the places
of a frame whatever is rendered, and is in an odd frame if the number of frames it has completed is
odd. It completes one with each dot that takes it from the last place to the first. Every frame has
all its dots, except that on the standard that drops a dot an odd frame lacks one if the picture is
rendered on the place 339 of the pre-render line. All other places are visited once, in order. -/
theorem path_follows_raster (b : Beam) (rendering : Nat → Bool) :
    { television := b.television } = b.reset ∧
    (∀ n,
      (-1 ≤ (b.path rendering n).line ∧ (b.path rendering n).line ≤ b.television.lines - 2) ∧
      (b.path rendering n).dot ≤ 340 ∧
      (b.path rendering n).oddFrame = decide ((b.path rendering n).frames % 2 = 1)) ∧
    (∀ n, b.ends rendering n = true ↔
      (b.path rendering n).place = ((b.television.lines : Int) - 2, 340) ∧
        (b.path rendering (n + 1)).place = (-1, 0)) ∧
    (∀ n, (b.path rendering (n + 1)).frames =
      (b.path rendering n).frames + (b.ends rendering n).toNat) ∧
    (∀ n, b.ends rendering n = true ↔ ∃ m, n + 1 = frameStart b.television rendering (m + 1)) ∧
    ((raster b.television).Nodup ∧ ∀ line dot, (line, dot) ∈ raster b.television ↔
      -1 ≤ line ∧ line ≤ b.television.lines - 2 ∧ dot ≤ 340) ∧
    ∀ m,
      (b.path rendering (frameStart b.television rendering m)).frames = m ∧
      (b.path rendering (frameStart b.television rendering m + 339)).place = (-1, 339) ∧
      (List.range (frameDots b.television rendering m (frameStart b.television rendering m))).map
          (fun k ↦ (b.path rendering (frameStart b.television rendering m + k)).place) =
        if b.television = .ntsc ∧ m % 2 = 1 ∧
            rendering (frameStart b.television rendering m + 339) = true then
          (raster b.television).erase droppedPlace
        else raster b.television := by
  have htv (n : Nat) : (b.path rendering n).lastLine = b.television.lines - 2 := by
    obtain ⟨m, k, h⟩ := b.exists_path_eq_onPlace rendering n
    rw [h, lastLine_onPlace]
  refine ⟨rfl, fun n ↦ ?bounds, fun n ↦ ?ends, fun n ↦ frames_advance _ _,
    b.ends_iff_frameStart rendering, ⟨nodup_raster _, fun _ _ ↦ mem_raster_iff⟩,
    fun m ↦ ⟨?frames, ?place, ?visits⟩⟩
  case bounds =>
    obtain ⟨hge, hle, hdot⟩ := b.isOnFrame_path rendering n
    obtain ⟨m, k, h⟩ := b.exists_path_eq_onPlace rendering n
    rw [htv] at hle
    exact ⟨⟨hge, hle⟩, Nat.le_of_lt_succ hdot, by rw [h]; rfl⟩
  case ends =>
    rw [← htv n]
    exact (b.isOnFrame_path rendering n).advance_fst_iff (rendering n)
  case frames => rw [path_frameStart, onPlace]
  case place =>
    have hlong :=
      dotsPerLine_lt_frameDots b.television rendering m (frameStart b.television rendering m)
    rw [(b.path_frameStart_add rendering (by omega)).1, rasterIndex_of_lt _ (by decide)]
    rfl
  case visits =>
    rw [map_place_path]
    exact if_congr (leavesOut_eq_true_iff _ _ _) rfl rfl

end Beam

end Famicom
