import Mathlib.Order.Bounds.Basic
import Nachos.FileSys.Contents
import Nachos.Lib.Path

/-!
# The simulated disk: latency

`machine/disk.cc`: how long a request takes. The disk turns by one sector in each `RotationTime`,
the head moves by one track in each `SeekTime`, and the track that the head is on is buffered from
the time on that the head reached it.

A request waits for no more than the hardware makes it wait (`request_latency`): it is over when its
sector has passed under the head for the first time after the seek; a read of a sector that the
buffer has takes one `RotationTime`.
-/

namespace Nachos.Latency

open Lib
open FileSys (int32 int32_eq NumSectors)

def SectorsPerTrack : Int := 32

def RotationTime : Int := 500

def SeekTime : Int := 500

/-- `class Disk`, without the file and the handler. -/
structure Disk where
  lastSector : Int
  bufferInit : Int
  active : Bool
  deriving DecidableEq

namespace Disk

/-- `Disk::Disk`. -/
def new : Disk := ⟨0, 0, false⟩

/-- `Disk::TimeToSeek`, with `*rotation`. -/
def TimeToSeek (d : Disk) (totalTicks newSector : Int) : Int × Int :=
  let newTrack := newSector.tdiv SectorsPerTrack
  let oldTrack := d.lastSector.tdiv SectorsPerTrack
  let seek := (newTrack - oldTrack).natAbs * SeekTime
  let overTicks := (totalTicks + seek).tmod RotationTime
  (seek, if overTicks > 0 then RotationTime - overTicks else 0)

/-- `Disk::ModuloDiff`. -/
def ModuloDiff (toSector fromSector : Int) : Int :=
  let toOffset := toSector.tmod SectorsPerTrack
  let fromOffset := fromSector.tmod SectorsPerTrack
  (toOffset - fromOffset + SectorsPerTrack).tmod SectorsPerTrack

/-- `Disk::ComputeLatency`. `timeAfter` is an `int`, and the clock is not. -/
def ComputeLatency (d : Disk) (totalTicks newSector : Int) (writing : Bool) : Int :=
  let (seek, rotation) := d.TimeToSeek totalTicks newSector
  let timeAfter := int32 (totalTicks + seek + rotation)
  if writing = false ∧ seek = 0 ∧ (int32 (timeAfter - d.bufferInit)).tdiv RotationTime >
      ModuloDiff newSector (d.bufferInit.tdiv RotationTime) then RotationTime
  else
    let rotation := rotation + ModuloDiff newSector (timeAfter.tdiv RotationTime) * RotationTime
    seek + rotation + RotationTime

/-- `Disk::UpdateLast`. -/
def UpdateLast (d : Disk) (totalTicks newSector : Int) : Disk :=
  let (seek, rotate) := d.TimeToSeek totalTicks newSector
  { d with
    bufferInit := if seek ≠ 0 then int32 (totalTicks + seek + rotate) else d.bufferInit
    lastSector := newSector }

/-- `Disk::ReadRequest` and `Disk::WriteRequest`: `ticks` is what `Schedule` is called with. -/
def Request (d : Disk) (totalTicks sectorNumber : Int) (writing : Bool) : Option (Disk × Int) :=
  let ticks := d.ComputeLatency totalTicks sectorNumber writing
  if d.active = false ∧ 0 ≤ sectorNumber ∧ sectorNumber < NumSectors then
    some ({ d with active := true }.UpdateLast totalTicks sectorNumber, ticks)
  else none

/-- `Disk::HandleInterrupt`. -/
def HandleInterrupt (d : Disk) : Disk := { d with active := false }

end Disk

inductive DiskEvent where
  | wait (time : Int)
  | request (sectorNumber : Int) (writing : Bool) (ticks : Int)
  | interrupt

/-- The disk and the clock. -/
def DiskStep (s : Disk × Int) : DiskEvent → Disk × Int → Prop
  | .wait time, s' => s.2 ≤ time ∧ s' = (s.1, time)
  | .request sectorNumber writing ticks, s' =>
    s.1.Request s.2 sectorNumber writing = some (s'.1, ticks) ∧ s'.2 = s.2
  | .interrupt, s' => s' = (s.1.HandleInterrupt, s.2)

/-- The clock, and what a seek adds to it, are in the range of `int`. -/
def InRange (s : Disk × Int) : Prop := s.2 + 16000 ≤ 2 ^ 31

instance (s : Disk × Int) : Decidable (InRange s) := inferInstanceAs (Decidable (_ ≤ _))

/-! ### The hardware -/

/-- The sector begins to pass under the head. -/
def Under (sector time : Int) : Prop :=
  ∃ m, time = RotationTime * m ∧ m % SectorsPerTrack = sector % SectorsPerTrack

/-- The way of the head, in time. -/
def Disk.seek (d : Disk) (sector : Int) : Int :=
  (sector / SectorsPerTrack - d.lastSector / SectorsPerTrack).natAbs * SeekTime

/-- The head is on the track of the sector, which has begun to pass since the head is there. -/
def Disk.Buffered (d : Disk) (now sector : Int) : Prop :=
  d.seek sector = 0 ∧ ∃ time, Under sector time ∧ d.bufferInit ≤ time ∧ time < now

/-! ### Turns of the disk -/

/-- The next turn that a sector comes in. -/
theorem least_turn (a s : Int) :
    IsLeast {m | a ≤ m ∧ m % SectorsPerTrack = s % SectorsPerTrack}
      (a + (s - a) % SectorsPerTrack) := by
  unfold SectorsPerTrack
  refine ⟨⟨by omega, by omega⟩, ?_⟩
  rintro m ⟨ham, hm⟩
  omega

variable {d d' : Disk} {now sector ticks : Int} {writing : Bool}

theorem ModuloDiff_eq {s a : Int} (hs : 0 ≤ s) (ha : 0 ≤ a) :
    Disk.ModuloDiff s a = (s - a) % SectorsPerTrack := by
  unfold Disk.ModuloDiff SectorsPerTrack
  rw [Int.tmod_eq_emod_of_nonneg hs, Int.tmod_eq_emod_of_nonneg ha,
    Int.tmod_eq_emod_of_nonneg (by omega)]
  omega

/-- What holds of the disk between requests. -/
structure Placed (s : Disk × Int) : Prop where
  now : 0 ≤ s.2
  sector : 0 ≤ s.1.lastSector ∧ s.1.lastSector < 1024
  buffer : ∃ b, 0 ≤ b ∧ s.1.bufferInit = RotationTime * b ∧ s.1.bufferInit < 2 ^ 31

/-- The head waits for the start of a turn. -/
theorem TimeToSeek_eq (h : Placed (d, now)) (hsector : 0 ≤ sector ∧ sector < 1024) :
    ∃ rotation a, d.TimeToSeek now sector = (d.seek sector, rotation) ∧
      now + d.seek sector + rotation = RotationTime * a ∧ 0 ≤ rotation ∧ rotation < RotationTime ∧
      0 ≤ d.seek sector ∧ d.seek sector ≤ 15500 := by
  obtain ⟨hnow, ⟨hlast, hlast'⟩, -⟩ := h
  dsimp only at hnow hlast hlast'
  have hseek : d.seek sector = (sector.tdiv SectorsPerTrack -
      d.lastSector.tdiv SectorsPerTrack).natAbs * SeekTime := by
    rw [Int.tdiv_eq_ediv_of_nonneg hsector.1, Int.tdiv_eq_ediv_of_nonneg hlast]
    rfl
  have hbound : 0 ≤ d.seek sector ∧ d.seek sector ≤ 15500 := by
    unfold Disk.seek SectorsPerTrack SeekTime
    omega
  have hover : (now + d.seek sector).tmod RotationTime = (now + d.seek sector) % RotationTime :=
    Int.tmod_eq_emod_of_nonneg (by omega)
  unfold Disk.TimeToSeek
  dsimp only
  rw [← hseek, hover]
  unfold RotationTime
  by_cases hpos : (now + d.seek sector) % 500 > 0
  · exact ⟨_, (now + d.seek sector) / 500 + 1, by rw [if_pos hpos], by omega, by omega, by omega,
      hbound⟩
  · exact ⟨_, (now + d.seek sector) / 500, by rw [if_neg hpos], by omega, by omega, by omega,
      hbound⟩

/-- The latency in turns: the request is looked at in the turn `a`, and the buffer begins with the
turn `b`. -/
theorem ComputeLatency_eq (h : Placed (d, now)) (hrange : InRange (d, now))
    (hsector : 0 ≤ sector ∧ sector < 1024) :
    ∃ rotation a b, now + d.seek sector + rotation = RotationTime * a ∧ 0 ≤ rotation ∧
      rotation < RotationTime ∧ 0 ≤ d.seek sector ∧ d.bufferInit = RotationTime * b ∧
      d.ComputeLatency now sector writing =
        if writing = false ∧ d.seek sector = 0 ∧ a - b > (sector - b) % SectorsPerTrack then
          RotationTime
        else d.seek sector + (rotation + (sector - a) % SectorsPerTrack * RotationTime) +
          RotationTime := by
  obtain ⟨rotation, a, hseek, ha, hrot, hrot', hpos, hmax⟩ := TimeToSeek_eq h hsector
  obtain ⟨b, hb, hbuffer, hbuffer'⟩ := h.buffer
  have hnow := h.now
  dsimp only [InRange] at hrange hnow hbuffer hbuffer'
  have hturn : ∀ x, (RotationTime * x).tdiv RotationTime = x := fun x =>
    Int.mul_tdiv_cancel_left x (by decide)
  have ha₀ : 0 ≤ a := by
    unfold RotationTime at ha
    omega
  have htime : int32 (now + d.seek sector + rotation) = RotationTime * a := by
    rw [int32_eq, ha]
    unfold RotationTime at hrot'
    omega
  have hdiff : int32 (RotationTime * a - d.bufferInit) = RotationTime * (a - b) := by
    rw [int32_eq, hbuffer, Int.mul_sub]
    rw [← ha, hbuffer]
    unfold RotationTime at hrot' hbuffer ⊢
    omega
  refine ⟨rotation, a, b, ha, hrot, hrot', hpos, hbuffer, ?_⟩
  unfold Disk.ComputeLatency
  rw [hseek]
  dsimp only
  rw [htime, hdiff, hbuffer, hturn, hturn, hturn, ModuloDiff_eq hsector.1 ha₀,
    ModuloDiff_eq hsector.1 hb]

/-- **A request takes as long as the hardware needs.** -/
theorem Placed.latency (h : Placed (d, now)) (hrange : InRange (d, now))
    (hsector : 0 ≤ sector ∧ sector < 1024) (hticks : d.ComputeLatency now sector writing = ticks) :
    (writing = false ∧ d.Buffered now sector ∧ ticks = RotationTime) ∨
      (¬ (writing = false ∧ d.Buffered now sector) ∧
        ∃ time, IsLeast {t | Under sector t ∧ now + d.seek sector ≤ t} time ∧
          now + ticks = time + RotationTime) := by
  obtain ⟨rotation, a, b, ha, hrot, hrot', hpos, hbuffer, hlatency⟩ :=
    ComputeLatency_eq h hrange hsector
  have hbuffered : d.Buffered now sector ↔
      d.seek sector = 0 ∧ a - b > (sector - b) % SectorsPerTrack := by
    unfold Disk.Buffered
    rw [hbuffer]
    refine and_congr_right fun hseek => ⟨?_, fun hturn => ?_⟩
    · rintro ⟨time, ⟨m, rfl, hm⟩, hstart, hend⟩
      unfold RotationTime at *
      have hleast := (least_turn b sector).2 ⟨by omega, hm⟩
      omega
    · obtain ⟨hstart, hm⟩ := (least_turn b sector).1
      refine ⟨_, ⟨_, rfl, hm⟩, ?_, ?_⟩
      · unfold RotationTime
        omega
      · unfold RotationTime at *
        omega
  rw [hlatency] at hticks
  by_cases hread : writing = false ∧ d.Buffered now sector
  · rw [if_pos ⟨hread.1, hbuffered.mp hread.2⟩] at hticks
    exact .inl ⟨hread.1, hread.2, hticks.symm⟩
  · rw [if_neg fun hcond => hread ⟨hcond.1, hbuffered.mpr hcond.2⟩] at hticks
    obtain ⟨⟨hstart, hm⟩, hleast⟩ := least_turn a sector
    refine .inr ⟨hread, RotationTime * (a + (sector - a) % SectorsPerTrack),
      ⟨⟨⟨_, rfl, hm⟩, ?_⟩, ?_⟩, ?_⟩
    · unfold RotationTime at *
      omega
    · rintro _ ⟨⟨m, rfl, hm'⟩, hafter⟩
      unfold RotationTime at *
      have hle := hleast ⟨by omega, hm'⟩
      omega
    · rw [← hticks, Int.mul_add, ← ha, Int.mul_comm RotationTime (_ % _)]
      omega

/-! ### Runs -/

/-- What `Request` checks, and what it does. -/
theorem Request_cases (hreq : d.Request now sector writing = some (d', ticks)) :
    (0 ≤ sector ∧ sector < 1024) ∧ d.ComputeLatency now sector writing = ticks ∧
      d' = { d with active := true }.UpdateLast now sector := by
  unfold Disk.Request at hreq
  by_cases hcheck : d.active = false ∧ 0 ≤ sector ∧ sector < NumSectors
  · rw [if_pos hcheck] at hreq
    cases hreq
    exact ⟨⟨hcheck.2.1, hcheck.2.2⟩, rfl, rfl⟩
  · rw [if_neg hcheck] at hreq
    cases hreq

theorem Placed.new : Placed (Disk.new, 0) :=
  ⟨Int.le_refl _, ⟨by decide, by decide⟩, 0, Int.le_refl _, rfl, by decide⟩

/-- A seek starts the buffer at the start of a turn. -/
theorem Placed.updateLast (h : Placed (d, now)) (hrange : InRange (d, now))
    (hsector : 0 ≤ sector ∧ sector < 1024) :
    Placed ({ d with active := true }.UpdateLast now sector, now) := by
  obtain ⟨rotation, a, hseek, ha, hrot, hrot', hpos, hmax⟩ := TimeToSeek_eq h hsector
  replace hseek : { d with active := true }.TimeToSeek now sector = (d.seek sector, rotation) :=
    hseek
  have hnow := h.now
  dsimp only [InRange] at hrange hnow
  unfold Disk.UpdateLast
  rw [hseek]
  refine ⟨hnow, hsector, ?_⟩
  dsimp only
  by_cases hmoves : d.seek sector ≠ 0
  · rw [if_pos hmoves, int32_eq (by unfold RotationTime at hrot'; omega)]
    unfold RotationTime at *
    exact ⟨a, by omega, ha, by omega⟩
  · rw [if_neg hmoves]
    exact h.buffer

theorem Placed.step {s s' : Disk × Int} {c : DiskEvent} (h : Placed s)
    (hs : Restrict DiskStep (fun s _ => InRange s) s c s') : Placed s' := by
  obtain ⟨d, now⟩ := s
  obtain ⟨d', now'⟩ := s'
  obtain ⟨hs, hrange⟩ := hs
  cases c with
  | wait time =>
    obtain ⟨hle, heq⟩ := hs
    cases heq
    exact ⟨Int.le_trans h.now hle, h.sector, h.buffer⟩
  | request sectorNumber writing ticks =>
    obtain ⟨hreq, hnow⟩ := hs
    dsimp only at hreq hnow
    obtain ⟨hsector, -, rfl⟩ := Request_cases hreq
    subst hnow
    exact h.updateLast hrange hsector
  | interrupt =>
    cases hs
    exact ⟨h.now, h.sector, h.buffer⟩

/-- **A request takes as long as the hardware needs.** In any run of the disk, while the clock is in
the range of `int`: a read of a sector that has begun to pass under the head since the head is on
its track takes the time of one turn; every other request ends when its sector has passed under the
head for the first time after the seek. So `Schedule` is called for a later time, as it asserts. -/
theorem request_latency {log : List DiskEvent}
    (h : Path (Restrict DiskStep fun s _ => InRange s) (Disk.new, 0) log (d, now))
    (hrange : InRange (d, now)) (hreq : d.Request now sector writing = some (d', ticks)) :
    0 < ticks ∧
      ((writing = false ∧ d.Buffered now sector ∧ ticks = RotationTime) ∨
        (¬ (writing = false ∧ d.Buffered now sector) ∧
          ∃ time, IsLeast {t | Under sector t ∧ now + d.seek sector ≤ t} time ∧
            now + ticks = time + RotationTime)) := by
  have hplaced : Placed (d, now) :=
    h.invariant (I := Placed) (fun _ _ _ hs hstep => hs.step hstep) Placed.new
  obtain ⟨hsector, hticks, -⟩ := Request_cases hreq
  have hlatency := hplaced.latency hrange hsector hticks
  refine ⟨?_, hlatency⟩
  rcases hlatency with ⟨-, -, rfl⟩ | ⟨-, time, ⟨⟨-, hafter⟩, -⟩, hend⟩
  · decide
  · have hseek : 0 ≤ d.seek sector := by
      unfold Disk.seek SeekTime
      omega
    unfold RotationTime at hend
    omega

/-- After sector 40, sector 33 of the same track is written: it passes for the first time in the
turn 33 of the disk. -/
theorem request_latency_write :
    ∃ time, IsLeast {t | Under 33 t ∧ 4500 + Disk.seek ⟨40, 500, false⟩ 33 ≤ t} time ∧
      4500 + 12500 = time + RotationTime := by
  have hwrite : Restrict DiskStep (fun s _ => InRange s) (Disk.new, 0) (.request 40 true 4500)
      (⟨40, 500, true⟩, 0) := ⟨⟨by decide +kernel, rfl⟩, by decide⟩
  have hwait : Restrict DiskStep (fun s _ => InRange s) (⟨40, 500, true⟩, 0) (.wait 4500)
      (⟨40, 500, true⟩, 4500) := ⟨⟨by decide, rfl⟩, by decide⟩
  have hdone : Restrict DiskStep (fun s _ => InRange s) (⟨40, 500, true⟩, 4500) .interrupt
      (⟨40, 500, false⟩, 4500) := ⟨rfl, by decide⟩
  have hreq : Disk.Request ⟨40, 500, false⟩ 4500 33 true = some (⟨33, 500, true⟩, 12500) := by
    decide +kernel
  obtain ⟨-, ⟨hread, -, -⟩ | ⟨-, hleast⟩⟩ :=
    request_latency (.cons hwrite (.cons hwait (.cons hdone (.nil _)))) (by decide) hreq
  · cases hread
  · exact hleast

end Nachos.Latency
