import Nachos.FileSys.Fetching

/-!
# The file system: an entry more, an entry less

A file comes with sectors that were clear, and goes with its sectors cleared. All else on the disk
stays where it is, and the disk stays in order.
-/

namespace Nachos.FileSys

open Lib Lib.Mem

/-- The entry that something is used for. -/
def Use.entry : Use → Option Nat
  | .header e | .data e _ => some e
  | _ => none

namespace FileSystem

variable {fs : FileSystem} {disk disk' : Mem} {e e₀ s : Nat} {n : List Byte}

/-! ### What is used -/

theorem file_eq {s : Int} (he : e < NumDirEntries)
    (h : (fs.directory disk).entry e = some (n, s)) : fs.file disk e = some (n, s.toNat) := by
  rw [file, if_pos he, h]
  rfl

theorem file_some {b : Nat} (h : fs.file disk e = some (n, b)) :
    e < NumDirEntries ∧ ∃ s, (fs.directory disk).entry e = some (n, s) ∧ s.toNat = b := by
  unfold file at h
  split at h
  · rename_i he
    obtain ⟨⟨n', s⟩, hs, heq⟩ := Option.map_eq_some_iff.mp h
    cases heq
    exact ⟨he, s, hs, rfl⟩
  · cases h

theorem file_congr (h : e < NumDirEntries →
    (fs.directory disk').entry e = (fs.directory disk).entry e) :
    fs.file disk' e = fs.file disk e := by
  unfold file
  split
  · rename_i he
    rw [h he]
  · rfl

theorem place_header {f : List Byte × Nat} (h : fs.file disk e = some f) :
    fs.place disk (.header e) = some f.2 := by
  rw [place, h]
  rfl

theorem place_data {f : List Byte × Nat} (h : fs.file disk e = some f) (i : Nat) :
    fs.place disk (.data e i) = (FileSys.header disk f.2).sectorAt i := by
  rw [place, h]
  rfl

theorem place_none (h : fs.file disk e = none) {i : Nat} : fs.place disk (.data e i) = none := by
  rw [place, h]
  rfl

theorem place_unused (h : fs.file disk e = none) {u : Use} (hu : u.entry = some e) :
    fs.place disk u = none := by
  cases u with
  | header e' =>
    cases hu
    rw [place, h]
    rfl
  | data e' i =>
    cases hu
    exact place_none h
  | _ => cases hu

/-- The sectors of a file are used for it. -/
theorem has_place {f : List Byte × Nat} (hf : fs.file disk e = some f) {b : Nat}
    (hb : (FileSys.header disk f.2).Has b) : ∃ i, fs.place disk (.data e i) = some b := by
  obtain ⟨i, hi⟩ := FileHeader.has_iff.mp hb
  exact ⟨i, (place_data hf i).trans hi⟩

namespace Good

variable (h : fs.Good disk)

include h

/-- What is used is on the disk. -/
theorem place_lt {u : Use} {b : Nat} (hu : fs.place disk u = some b) : b < NumSectors := by
  cases u with
  | freeMapHeader | directoryHeader =>
    cases hu
    decide
  | freeMapData i => exact h.freeMapFile.sectorAt_lt hu
  | directoryData i => exact h.directoryFile.sectorAt_lt hu
  | header e =>
    obtain ⟨⟨n, b'⟩, hf, rfl⟩ := Option.map_eq_some_iff.mp hu
    obtain ⟨he, s, hs, rfl⟩ := file_some hf
    have := h.sectors e n s he hs
    omega
  | data e i =>
    obtain ⟨⟨n, b'⟩, hf, hi⟩ := Option.bind_eq_some_iff.mp hu
    exact (h.files e n b' hf).sectorAt_lt hi

theorem marked_of_place {u : Use} {b : Nat} (hu : fs.place disk u = some b) :
    (fs.freeMap disk).bit b = true :=
  (h.marked b (h.place_lt hu)).mpr ⟨u, hu⟩

/-- What is used for something else is no sector of the bitmap's file. -/
theorem not_freeMapFile {u : Use} {b : Nat} (hu : fs.place disk u = some b)
    (hne : ∀ i, u ≠ .freeMapData i) : ¬ fs.freeMapFile.hdr.Has b := by
  intro hhas
  obtain ⟨i, hi⟩ := FileHeader.has_iff.mp hhas
  exact hne i (h.placed u (.freeMapData i) b hu hi)

theorem not_directoryFile {u : Use} {b : Nat} (hu : fs.place disk u = some b)
    (hne : ∀ i, u ≠ .directoryData i) : ¬ fs.directoryFile.hdr.Has b := by
  intro hhas
  obtain ⟨i, hi⟩ := FileHeader.has_iff.mp hhas
  exact hne i (h.placed u (.directoryData i) b hu hi)

end Good

/-! ### What an operation leaves as it is -/

/-- The sectors that hold neither the bitmap nor the directory nor the header `s` are as they
were. -/
def Kept (fs : FileSystem) (disk disk' : Mem) (s : Nat) : Prop :=
  ∀ b, b ≠ s → ¬ fs.freeMapFile.hdr.Has b → ¬ fs.directoryFile.hdr.Has b → Same disk disk' b

/-- What is used for a file other than in `s` is as it was. -/
theorem Good.same (h : fs.Good disk) (hkept : fs.Kept disk disk' s) {u : Use} {b : Nat}
    (hu : fs.place disk u = some b) (hs : b ≠ s) (hmap : ∀ i, u ≠ .freeMapData i)
    (hdir : ∀ i, u ≠ .directoryData i) : Same disk disk' b :=
  hkept b hs (h.not_freeMapFile hu hmap) (h.not_directoryFile hu hdir)

theorem Good.header_kept (h : fs.Good disk) (hkept : fs.Kept disk disk' s)
    {f : List Byte × Nat} (hf : fs.file disk e = some f) (hs : f.2 ≠ s) :
    FileSys.header disk' f.2 = FileSys.header disk f.2 :=
  header_congr (h.same hkept (place_header hf) hs (by simp) (by simp))

/-- **A file keeps its bytes**, if none of its sectors is `s`. -/
theorem Good.contents_kept (h : fs.Good disk) (hkept : fs.Kept disk disk' s)
    {f : List Byte × Nat} (hf : fs.file disk e = some f) (hs : f.2 ≠ s)
    (hdata : ∀ i, fs.place disk (.data e i) ≠ some s) :
    (FileSys.header disk' f.2).contents disk' = (FileSys.header disk f.2).contents disk := by
  rw [h.header_kept hkept hf hs]
  refine (h.files e f.1 f.2 hf).contents_congr fun b hb => ?_
  obtain ⟨i, hi⟩ := has_place hf hb
  refine h.same hkept hi ?_ (by simp) (by simp)
  rintro rfl
  exact hdata i hi

/-- What is used for an entry that stays is used as before. -/
theorem Good.place_kept (h : fs.Good disk) (hkept : fs.Kept disk disk' s) {u : Use}
    (hfile : ∀ e, u.entry = some e → fs.file disk' e = fs.file disk e)
    (hs : ∀ e f, u.entry = some e → fs.file disk e = some f → f.2 ≠ s) :
    fs.place disk' u = fs.place disk u := by
  cases u with
  | header e => rw [place, place, hfile e rfl]
  | data e i =>
    have he := hfile e rfl
    cases hf : fs.file disk e with
    | none => rw [place_none hf, place_none (he.trans hf)]
    | some f =>
      rw [place_data hf, place_data (he.trans hf), h.header_kept hkept hf (hs e f rfl hf)]
  | _ => rfl

/-! ### An entry more -/

/-- A file was added: its header is in `s`. -/
structure Added (fs : FileSystem) (disk disk' : Mem) (e₀ : Nat) (n : List Byte) (s : Nat) :
    Prop where
  free : e₀ < NumDirEntries ∧ fs.file disk e₀ = none
  unnamed : ∀ e b, fs.file disk e ≠ some (n, b)
  clear : s < NumSectors ∧ (fs.freeMap disk).bit s = false
  valid : (FileSys.header disk' s).Valid
  taken : (FileSys.header disk' s).numSectors =
    FileHeader.needed (FileSys.header disk' s).numBytes
  clears : ∀ b, (FileSys.header disk' s).Has b → b ≠ s ∧ (fs.freeMap disk).bit b = false
  entry : (fs.directory disk').entry e₀ = some (n, (s : Int))
  entries : ∀ e < NumDirEntries, e ≠ e₀ →
    (fs.directory disk').entry e = (fs.directory disk).entry e
  bits : ∀ b < NumSectors, (fs.freeMap disk').bit b = true ↔
    (fs.freeMap disk).bit b = true ∨ b = s ∨ (FileSys.header disk' s).Has b
  kept : fs.Kept disk disk' s

section Added

variable (h : fs.Good disk) (ha : fs.Added disk disk' e₀ n s)

include ha

theorem Added.file_self : fs.file disk' e₀ = some (n, s) := by
  rw [file_eq ha.free.1 ha.entry, Int.toNat_natCast]

theorem Added.file_of_ne (he : e ≠ e₀) : fs.file disk' e = fs.file disk e :=
  file_congr fun hlt => ha.entries e hlt he

include h

theorem Added.unused (u : Use) : fs.place disk u ≠ some s := fun hu => by
  cases (h.marked_of_place hu).symm.trans ha.clear.2

theorem Added.data_unused {b : Nat} (hb : (FileSys.header disk' s).Has b) (u : Use) :
    fs.place disk u ≠ some b := fun hu => by
  cases (h.marked_of_place hu).symm.trans (ha.clears b hb).2

theorem Added.header_ne {f : List Byte × Nat} (hf : fs.file disk e = some f) : f.2 ≠ s := by
  intro heq
  rw [← heq] at ha
  exact ha.unused h (.header e) (place_header hf)

/-- The other uses stay. -/
theorem Added.place_kept {u : Use} (hu : u.entry ≠ some e₀) :
    fs.place disk' u = fs.place disk u :=
  h.place_kept ha.kept (fun _ he => ha.file_of_ne fun heq => hu (heq ▸ he))
    fun _ _ _ hf => ha.header_ne h hf

/-- A new use is of the new file. -/
theorem Added.place_cases {u : Use} {b : Nat} (hu : fs.place disk' u = some b) :
    (fs.place disk u = some b) ∨ (u = .header e₀ ∧ b = s) ∨
      ∃ i, u = .data e₀ i ∧ (FileSys.header disk' s).sectorAt i = some b := by
  by_cases hentry : u.entry = some e₀
  · cases u with
    | header e =>
      cases hentry
      cases hu.symm.trans (place_header ha.file_self)
      exact .inr (.inl ⟨rfl, rfl⟩)
    | data e i =>
      cases hentry
      exact .inr (.inr ⟨i, rfl, (place_data ha.file_self i).symm.trans hu⟩)
    | _ => cases hentry
  · exact .inl ((ha.place_kept h hentry).symm.trans hu)

/-- **The disk stays in order.** -/
theorem Added.good : fs.Good disk' := by
  have hsame0 : ∀ {b}, fs.place disk .freeMapHeader = some b → Same disk disk' b := fun hu =>
    h.same ha.kept hu (fun heq => ha.unused h _ (heq ▸ hu)) (by simp) (by simp)
  have hsame1 : ∀ {b}, fs.place disk .directoryHeader = some b → Same disk disk' b := fun hu =>
    h.same ha.kept hu (fun heq => ha.unused h _ (heq ▸ hu)) (by simp) (by simp)
  have hheader : ∀ {e f}, e ≠ e₀ → fs.file disk e = some f →
      FileSys.header disk' f.2 = FileSys.header disk f.2 := fun _ hf =>
    h.header_kept ha.kept hf (ha.header_ne h hf)
  refine ⟨?_, ?_, h.freeMapFile, h.directoryFile, h.freeMapSize, h.directorySize, ?_, ?_, ?_, ?_,
    ?_, ?_⟩
  · rw [h.freeMapHeader, header_congr (hsame0 rfl)]
  · rw [h.directoryHeader, header_congr (hsame1 rfl)]
  · intro e n' s' he hentry
    by_cases hee : e = e₀
    · subst hee
      cases ha.entry.symm.trans hentry
      have := ha.clear.1
      omega
    · rw [ha.entries e he hee] at hentry
      exact h.sectors e n' s' he hentry
  · intro e n' b hf
    by_cases hee : e = e₀
    · subst hee
      cases ha.file_self.symm.trans hf
      exact ha.valid
    · rw [ha.file_of_ne hee] at hf
      rw [hheader hee hf]
      exact h.files e n' b hf
  · intro e n' b hf
    by_cases hee : e = e₀
    · subst hee
      cases ha.file_self.symm.trans hf
      exact ha.taken
    · rw [ha.file_of_ne hee] at hf
      rw [hheader hee hf]
      exact h.taken e n' b hf
  · intro e e' n' b b' hf hf'
    by_cases hee : e = e₀
    · subst hee
      cases ha.file_self.symm.trans hf
      by_contra hne
      rw [ha.file_of_ne fun heq => hne heq.symm] at hf'
      exact ha.unnamed e' b' hf'
    · by_cases hee' : e' = e₀
      · subst hee'
        cases ha.file_self.symm.trans hf'
        rw [ha.file_of_ne hee] at hf
        exact absurd hf (ha.unnamed e b)
      · rw [ha.file_of_ne hee] at hf
        rw [ha.file_of_ne hee'] at hf'
        exact h.names e e' n' b b' hf hf'
  · intro u v b hu hv
    rcases ha.place_cases h hu with hold | ⟨rfl, rfl⟩ | ⟨i, rfl, hi⟩
    · rcases ha.place_cases h hv with hold' | ⟨rfl, rfl⟩ | ⟨j, rfl, hj⟩
      · exact h.placed u v b hold hold'
      · exact absurd hold (ha.unused h u)
      · exact absurd hold (ha.data_unused h (FileHeader.has_iff.mpr ⟨j, hj⟩) u)
    · rcases ha.place_cases h hv with hold' | ⟨rfl, -⟩ | ⟨j, rfl, hj⟩
      · exact absurd hold' (ha.unused h v)
      · rfl
      · exact absurd rfl (ha.clears _ (FileHeader.has_iff.mpr ⟨j, hj⟩)).1
    · have hhas := FileHeader.has_iff.mpr ⟨i, hi⟩
      rcases ha.place_cases h hv with hold' | ⟨rfl, rfl⟩ | ⟨j, rfl, hj⟩
      · exact absurd hold' (ha.data_unused h hhas v)
      · exact absurd rfl (ha.clears _ hhas).1
      · rw [ha.valid.sectorAt_inj hi hj]
  · intro b hb
    rw [ha.bits b hb, h.marked b hb]
    constructor
    · rintro (⟨u, hu⟩ | rfl | hhas)
      · refine ⟨u, (ha.place_kept h fun hentry => ?_).trans hu⟩
        rw [place_unused ha.free.2 hentry] at hu
        cases hu
      · exact ⟨.header e₀, place_header ha.file_self⟩
      · obtain ⟨i, hi⟩ := FileHeader.has_iff.mp hhas
        exact ⟨.data e₀ i, (place_data ha.file_self i).trans hi⟩
    · rintro ⟨u, hu⟩
      rcases ha.place_cases h hu with hold | ⟨-, rfl⟩ | ⟨i, -, hi⟩
      · exact .inl ⟨u, hold⟩
      · exact .inr (.inl rfl)
      · exact .inr (.inr (FileHeader.has_iff.mpr ⟨i, hi⟩))

end Added

/-! ### An entry less -/

/-- A file was removed: its header was in `s`. -/
structure Removed (fs : FileSystem) (disk disk' : Mem) (e₀ : Nat) (n : List Byte) (s : Nat) :
    Prop where
  file : fs.file disk e₀ = some (n, s)
  entry : (fs.directory disk').entry e₀ = none
  entries : ∀ e < NumDirEntries, e ≠ e₀ →
    (fs.directory disk').entry e = (fs.directory disk).entry e
  bits : ∀ b < NumSectors, (fs.freeMap disk').bit b = true ↔
    (fs.freeMap disk).bit b = true ∧ b ≠ s ∧ ¬ (FileSys.header disk s).Has b
  kept : fs.Kept disk disk' s

section Removed

variable (h : fs.Good disk) (hr : fs.Removed disk disk' e₀ n s)

include hr

theorem Removed.file_self : fs.file disk' e₀ = none := by
  rw [FileSystem.file, if_pos (file_some hr.file).1, hr.entry]
  rfl

theorem Removed.file_of_ne (he : e ≠ e₀) : fs.file disk' e = fs.file disk e :=
  file_congr fun hlt => hr.entries e hlt he

/-- What was used for the file: its header and its data. -/
theorem Removed.place_of_entry {u : Use} {b : Nat} (hentry : u.entry = some e₀)
    (hu : fs.place disk u = some b) : b = s ∨ (FileSys.header disk s).Has b := by
  cases u with
  | header e =>
    cases hentry
    cases hu.symm.trans (place_header hr.file)
    exact .inl rfl
  | data e i =>
    cases hentry
    exact .inr (FileHeader.has_iff.mpr ⟨i, (place_data hr.file i).symm.trans hu⟩)
  | _ => cases hentry

include h

theorem Removed.header_ne {f : List Byte × Nat} (he : e ≠ e₀) (hf : fs.file disk e = some f) :
    f.2 ≠ s := by
  intro heq
  have hplace := place_header hf
  rw [heq] at hplace
  have huse := h.placed _ _ _ hplace (place_header hr.file)
  cases huse
  exact he rfl

/-- The other uses stay. -/
theorem Removed.place_kept {u : Use} (hu : u.entry ≠ some e₀) :
    fs.place disk' u = fs.place disk u :=
  h.place_kept hr.kept (fun _ he => hr.file_of_ne fun heq => hu (heq ▸ he))
    fun _ _ he hf => hr.header_ne h (fun heq => hu (heq ▸ he)) hf

/-- What is used afterwards was used before, and not for the file. -/
theorem Removed.place_old {u : Use} {b : Nat} (hu : fs.place disk' u = some b) :
    u.entry ≠ some e₀ ∧ fs.place disk u = some b := by
  have hentry : u.entry ≠ some e₀ := fun heq => by
    rw [place_unused hr.file_self heq] at hu
    cases hu
  exact ⟨hentry, (hr.place_kept h hentry).symm.trans hu⟩

/-- **The disk stays in order.** -/
theorem Removed.good : fs.Good disk' := by
  have hplace : ∀ {u b}, u.entry = none → fs.place disk u = some b → b ≠ s := by
    intro u b hu hb heq
    rw [heq] at hb
    have huse := h.placed _ _ _ hb (place_header hr.file)
    rw [huse] at hu
    cases hu
  have hheader : ∀ {e f}, e ≠ e₀ → fs.file disk e = some f →
      FileSys.header disk' f.2 = FileSys.header disk f.2 := fun he hf =>
    h.header_kept hr.kept hf (hr.header_ne h he hf)
  have hne : ∀ {e f}, fs.file disk' e = some f → e ≠ e₀ := fun hf heq => by
    rw [heq, hr.file_self] at hf
    cases hf
  refine ⟨?_, ?_, h.freeMapFile, h.directoryFile, h.freeMapSize, h.directorySize, ?_, ?_, ?_, ?_,
    ?_, ?_⟩
  · rw [h.freeMapHeader, header_congr (h.same hr.kept (u := .freeMapHeader) rfl
      (hplace (u := .freeMapHeader) rfl rfl) (by simp) (by simp))]
  · rw [h.directoryHeader, header_congr (h.same hr.kept (u := .directoryHeader) rfl
      (hplace (u := .directoryHeader) rfl rfl) (by simp) (by simp))]
  · intro e n' s' he hentry
    by_cases hee : e = e₀
    · rw [hee, hr.entry] at hentry
      cases hentry
    · rw [hr.entries e he hee] at hentry
      exact h.sectors e n' s' he hentry
  · intro e n' b hf
    have hee := hne hf
    rw [hr.file_of_ne hee] at hf
    rw [hheader hee hf]
    exact h.files e n' b hf
  · intro e n' b hf
    have hee := hne hf
    rw [hr.file_of_ne hee] at hf
    rw [hheader hee hf]
    exact h.taken e n' b hf
  · intro e e' n' b b' hf hf'
    rw [hr.file_of_ne (hne hf)] at hf
    rw [hr.file_of_ne (hne hf')] at hf'
    exact h.names e e' n' b b' hf hf'
  · intro u v b hu hv
    exact h.placed u v b (hr.place_old h hu).2 (hr.place_old h hv).2
  · intro b hb
    rw [hr.bits b hb, h.marked b hb]
    constructor
    · rintro ⟨⟨u, hu⟩, hs, hdata⟩
      refine ⟨u, (hr.place_kept h fun hentry => ?_).trans hu⟩
      exact (hr.place_of_entry hentry hu).elim hs hdata
    · rintro ⟨u, hu⟩
      obtain ⟨hentry, hold⟩ := hr.place_old h hu
      refine ⟨⟨u, hold⟩, ?_, fun hhas => ?_⟩
      · rintro rfl
        exact hentry (congrArg Use.entry (h.placed _ _ _ hold (place_header hr.file)))
      · obtain ⟨i, hi⟩ := has_place hr.file hhas
        exact hentry (congrArg Use.entry (h.placed _ _ _ hold hi))

end Removed

/-! ### Bytes written -/

/-- Some bytes of a file were written. -/
def Written (disk disk' : Mem) (s : Nat) : Prop :=
  ∀ b, ¬ (FileSys.header disk s).Has b → Same disk disk' b

section Written

variable (h : fs.Good disk) (hf : fs.file disk e₀ = some (n, s)) (hw : Written disk disk' s)

include h hf hw

/-- What is used for something else than the data of the file stays. -/
theorem Written.same {u : Use} {b : Nat} (hu : fs.place disk u = some b)
    (hdata : ∀ i, u ≠ .data e₀ i) : Same disk disk' b := by
  refine hw b fun hhas => ?_
  obtain ⟨i, hi⟩ := has_place hf hhas
  exact hdata i (h.placed _ _ _ hu hi)

theorem Written.freeMap {b : Nat} (hb : b < NumSectors) :
    (fs.freeMap disk').bit b = (fs.freeMap disk).bit b := by
  refine h.sized.freeMap_congr (fun c hc => ?_) hb
  obtain ⟨i, hi⟩ := FileHeader.has_iff.mp hc
  exact hw.same h hf (u := .freeMapData i) hi (by simp)

theorem Written.directory (he : e < NumDirEntries) :
    (fs.directory disk').entry e = (fs.directory disk).entry e := by
  refine h.sized.directory_congr (fun c hc => ?_) he
  obtain ⟨i, hi⟩ := FileHeader.has_iff.mp hc
  exact hw.same h hf (u := .directoryData i) hi (by simp)

theorem Written.file_eq : fs.file disk' e = fs.file disk e :=
  file_congr fun he => hw.directory h hf he

theorem Written.header {f : List Byte × Nat} (he : fs.file disk e = some f) :
    FileSys.header disk' f.2 = FileSys.header disk f.2 :=
  header_congr (hw.same h hf (place_header he) (by simp))

theorem Written.place_eq (u : Use) : fs.place disk' u = fs.place disk u := by
  cases u with
  | header e => rw [place, place, hw.file_eq h hf]
  | data e i =>
    have he : fs.file disk' e = fs.file disk e := hw.file_eq h hf
    cases hfile : fs.file disk e with
    | none => rw [place_none hfile, place_none (he.trans hfile)]
    | some f => rw [place_data hfile, place_data (he.trans hfile), hw.header h hf hfile]
  | _ => rfl

/-- **The disk stays in order.** -/
theorem Written.good : fs.Good disk' := by
  refine ⟨?_, ?_, h.freeMapFile, h.directoryFile, h.freeMapSize, h.directorySize, ?_, ?_, ?_, ?_,
    ?_, ?_⟩
  · rw [h.freeMapHeader, header_congr (hw.same h hf (u := .freeMapHeader) rfl (by simp))]
  · rw [h.directoryHeader, header_congr (hw.same h hf (u := .directoryHeader) rfl (by simp))]
  · intro e n' s' he hentry
    rw [hw.directory h hf he] at hentry
    exact h.sectors e n' s' he hentry
  · intro e n' b he
    rw [hw.file_eq h hf] at he
    rw [hw.header h hf he]
    exact h.files e n' b he
  · intro e n' b he
    rw [hw.file_eq h hf] at he
    rw [hw.header h hf he]
    exact h.taken e n' b he
  · intro e e' n' b b' he he'
    rw [hw.file_eq h hf] at he he'
    exact h.names e e' n' b b' he he'
  · intro u v b hu hv
    rw [hw.place_eq h hf] at hu hv
    exact h.placed u v b hu hv
  · intro b hb
    rw [hw.freeMap h hf hb, h.marked b hb]
    exact exists_congr fun u => by rw [hw.place_eq h hf]

/-- The other files keep their bytes. -/
theorem Written.contents {f : List Byte × Nat} (he : fs.file disk e = some f) (hne : e ≠ e₀) :
    (FileSys.header disk' f.2).contents disk' = (FileSys.header disk f.2).contents disk := by
  rw [hw.header h hf he]
  refine (h.files e f.1 f.2 he).contents_congr fun b hb => ?_
  obtain ⟨i, hi⟩ := has_place he hb
  refine hw.same h hf hi fun j heq => ?_
  cases heq
  exact hne rfl

end Written

end FileSystem

end Nachos.FileSys
