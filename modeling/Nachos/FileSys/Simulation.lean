import Nachos.FileSys.Files

/-!
# The file system does what `Files` does

The disk stands for files by name (`Abstracts`). Each request of a careful user is answered, and
as `Files` answers it; so is every run of them from a formatted disk on.
-/

namespace Nachos.FileSys

open Lib Lib.Mem

/-- What the disk and the open files stand for. -/
structure Abstracts (s : State) (a : Files) : Prop where
  good : s.fs.Good s.disk
  named : ∀ e n b, s.fs.file s.disk e = some (n, b) → 0 ≤ (header s.disk b).numBytes ∧
    a.bytes n = some ((header s.disk b).contents s.disk)
  only : ∀ n, a.bytes n ≠ none → ∃ e b, s.fs.file s.disk e = some (n, b)
  entries : a.entries = (s.fs.unused s.disk).card
  sectors : (a.sectors : Int) = (s.fs.freeMap s.disk).NumClear
  handles : ∀ k, a.handles k = (s.opened k).map fun f => (f.1, f.2.seekPosition)
  headers : ∀ k n f, s.opened k = some (n, f) →
    ∃ e b, s.fs.file s.disk e = some (n, b) ∧ f.hdr = header s.disk b

namespace FileSystem

variable {fs : FileSystem} {disk disk' : Mem} {e e₀ s : Nat} {n : List Byte}

/-! ### Other files keep their bytes -/

theorem Added.contents (h : fs.Good disk) (ha : fs.Added disk disk' e₀ n s) {f : List Byte × Nat}
    (hf : fs.file disk e = some f) :
    (FileSys.header disk' f.2).contents disk' = (FileSys.header disk f.2).contents disk :=
  h.contents_kept ha.kept hf (ha.header_ne h hf) fun i => ha.unused h (.data e i)

theorem Removed.contents (h : fs.Good disk) (hr : fs.Removed disk disk' e₀ n s)
    {f : List Byte × Nat} (hne : e ≠ e₀) (hf : fs.file disk e = some f) :
    (FileSys.header disk' f.2).contents disk' = (FileSys.header disk f.2).contents disk := by
  refine h.contents_kept hr.kept hf (hr.header_ne h hne hf) fun i hi => ?_
  cases h.placed _ _ _ hi (place_header hr.file)

end FileSystem

open FileSystem

namespace Abstracts

variable {s : State} {a : Files} (h : Abstracts s a)

include h

/-- A name that is not there names no file. -/
theorem bytes_eq_none {n : List Byte} (hn : ∀ e b, s.fs.file s.disk e ≠ some (n, b)) :
    a.bytes n = none := by
  by_contra hne
  obtain ⟨e, b, hf⟩ := h.only n hne
  exact hn e b hf

theorem entries_eq_zero : a.entries = 0 ↔ s.fs.unused s.disk = ∅ := by
  rw [h.entries, Finset.card_eq_zero]

/-- The file that is open. -/
theorem open_file {k : Nat} {f : List Byte × OpenFile} (hk : s.opened k = some f) :
    ∃ e b, s.fs.file s.disk e = some (f.1, b) ∧ f.2.hdr = header s.disk b ∧
      f.2.hdr.Valid ∧ 0 ≤ f.2.hdr.numBytes ∧ a.bytes f.1 = some (f.2.hdr.contents s.disk) ∧
      a.handles k = some (f.1, f.2.seekPosition) := by
  obtain ⟨e, b, hfile, hhdr⟩ := h.headers k f.1 f.2 hk
  obtain ⟨hpos, hbytes⟩ := h.named e f.1 b hfile
  refine ⟨e, b, hfile, hhdr, ?_, ?_, ?_, by rw [h.handles, hk]; rfl⟩
  · rw [hhdr]
    exact h.good.files e f.1 b hfile
  · rw [hhdr]
    exact hpos
  · rw [hhdr]
    exact hbytes

/-! ### One lemma for each change -/

/-- A file is created. -/
theorem create {disk' : Mem} {name : Nat → Byte} {size : Int} (hsize : 0 ≤ size)
    (hc : s.fs.Created s.disk disk' name size)
    (hnot : ¬ s.fs.Refused s.disk name size) :
    ∃ a', Files.Step a (.create name size, .done true) a' ∧
      Abstracts { s with disk := disk' } a' := by
  obtain ⟨e₀, b₀, ha, hnumBytes⟩ := hc.added
  have hgood := ha.good h.good
  have hsectors := sectorsOf_eq hsize
  have hleft := hc.left
  have hasectors := h.sectors
  unfold FileSystem.Refused at hnot
  simp only [not_or] at hnot
  have henough : sectorsOf size.toNat ≤ a.sectors := by omega
  have hkeep : ∀ {e f}, s.fs.file s.disk e = some f → e ≠ e₀ := fun hf heq => by
    rw [heq, ha.free.2] at hf
    cases hf
  refine ⟨_, .created (l := (header disk' b₀).contents disk')
    (h.bytes_eq_none ha.unnamed) ?_ henough ?_, ?_⟩
  · exact Nat.pos_of_ne_zero fun hzero => hnot.2.1 (h.entries_eq_zero.mp hzero)
  · rw [FileHeader.contents_length, hnumBytes]
    omega
  refine ⟨hgood, fun e n b hf => ?_, fun n hn => ?_, ?_, ?_, h.handles, fun k n f hk => ?_⟩
  · by_cases he : e = e₀
    · subst he
      cases ha.file_self.symm.trans hf
      exact ⟨by rw [hnumBytes]; exact hsize, Function.update_self ..⟩
    · have hold := (ha.file_of_ne he).symm.trans hf
      have hne : n ≠ key name := fun heq => ha.unnamed e b (heq ▸ hold)
      obtain ⟨hpos, hbytes⟩ := h.named e n b hold
      refine ⟨?_, (Function.update_of_ne hne _ _).trans (hbytes.trans ?_)⟩
      · rw [h.good.header_kept ha.kept hold (ha.header_ne h.good hold)]
        exact hpos
      · rw [ha.contents h.good hold]
  · by_cases heq : n = key name
    · exact ⟨e₀, b₀, by rw [heq]; exact ha.file_self⟩
    · obtain ⟨e, b, hf⟩ := h.only n fun hnone => hn ((Function.update_of_ne heq _ _).trans hnone)
      exact ⟨e, b, (ha.file_of_ne (hkeep hf)).trans hf⟩
  · show a.entries - 1 = _
    rw [ha.unused_eq, Finset.card_erase_of_mem (mem_unused.mpr ha.free), h.entries]
  · show ((a.sectors - sectorsOf size.toNat : Nat) : Int) = _
    rw [hleft]
    omega
  · obtain ⟨e, b, hf, hhdr⟩ := h.headers k n f hk
    refine ⟨e, b, (ha.file_of_ne (hkeep hf)).trans hf, hhdr.trans ?_⟩
    rw [h.good.header_kept ha.kept hf (ha.header_ne h.good hf)]

/-- A file is removed that is not open. -/
theorem remove {disk' : Mem} {name : Nat → Byte} {e₀ b₀ : Nat}
    (hr : s.fs.Removed s.disk disk' e₀ (key name) b₀)
    (hleft : (s.fs.freeMap disk').NumClear = (s.fs.freeMap s.disk).NumClear +
      (1 + max 0 (FileHeader.needed (header s.disk b₀).numBytes)))
    (hclosed : ∀ k f, s.opened k ≠ some (key name, f)) :
    ∃ a', Files.Step a (.remove name, .done true) a' ∧ Abstracts { s with disk := disk' } a' := by
  obtain ⟨hpos, hbytes⟩ := h.named e₀ _ b₀ hr.file
  have hsectors := sectorsOf_eq hpos
  have hasectors := h.sectors
  have hother : ∀ {e n b}, s.fs.file s.disk e = some (n, b) → n ≠ key name → e ≠ e₀ := by
    intro e n b hf hne heq
    rw [heq, hr.file] at hf
    cases hf
    exact hne rfl
  refine ⟨_, .removed hbytes, ?_⟩
  refine ⟨hr.good h.good, fun e n b hf => ?_, fun n hn => ?_, ?_, ?_, h.handles, fun k n f hk => ?_⟩
  · have he : e ≠ e₀ := fun heq => by
      rw [heq, hr.file_self] at hf
      cases hf
    have hold := (hr.file_of_ne he).symm.trans hf
    have hne : n ≠ key name := fun heq => he (h.good.names e e₀ n b b₀ hold (heq ▸ hr.file))
    obtain ⟨hpos, hbytes⟩ := h.named e n b hold
    refine ⟨?_, (Function.update_of_ne hne _ _).trans (hbytes.trans ?_)⟩
    · rw [h.good.header_kept hr.kept hold (hr.header_ne h.good he hold)]
      exact hpos
    · rw [hr.contents h.good he hold]
  · by_cases heq : n = key name
    · subst heq
      exact absurd (Function.update_self ..) hn
    · obtain ⟨e, b, hf⟩ := h.only n fun hnone => hn ((Function.update_of_ne heq _ _).trans hnone)
      exact ⟨e, b, (hr.file_of_ne (hother hf heq)).trans hf⟩
  · have hnot : e₀ ∉ s.fs.unused s.disk := fun hmem => by
      cases (mem_unused.mp hmem).2.symm.trans hr.file
    show a.entries + 1 = _
    rw [hr.unused_eq, Finset.card_insert_of_notMem hnot, h.entries]
  · show ((a.sectors + sectorsOf _ : Nat) : Int) = _
    rw [hleft, FileHeader.contents_length]
    omega
  · obtain ⟨e, b, hf, hhdr⟩ := h.headers k n f hk
    have hne : n ≠ key name := fun heq => hclosed k f (heq ▸ hk)
    have he := hother hf hne
    refine ⟨e, b, (hr.file_of_ne he).trans hf, hhdr.trans ?_⟩
    rw [h.good.header_kept hr.kept hf (hr.header_ne h.good he hf)]

/-- A handle moves, opens or closes. -/
theorem setOpened {k : Nat} {f : Option (List Byte × OpenFile)}
    (hf : ∀ n file, f = some (n, file) →
      ∃ e b, s.fs.file s.disk e = some (n, b) ∧ file.hdr = header s.disk b) :
    Abstracts (s.setOpened k f) (a.setHandle k (f.map fun f => (f.1, f.2.seekPosition))) := by
  refine ⟨h.good, h.named, h.only, h.entries, h.sectors, fun j => ?_, fun j n file hj => ?_⟩
  · show Function.update a.handles k _ j = (Function.update s.opened k f j).map _
    by_cases hjk : j = k
    · rw [hjk, Function.update_self, Function.update_self]
    · rw [Function.update_of_ne hjk, Function.update_of_ne hjk, h.handles]
  · have hj' : Function.update s.opened k f j = some (n, file) := hj
    by_cases hjk : j = k
    · rw [hjk, Function.update_self] at hj'
      exact hf n file hj'
    · rw [Function.update_of_ne hjk] at hj'
      exact h.headers j n file hj'

/-- The open file's position is another one. -/
theorem move {k : Nat} {f : List Byte × OpenFile} (hk : s.opened k = some f) (position : Nat) :
    Abstracts (s.setOpened k (some (f.1, f.2.Seek position)))
      (a.setHandle k (some (f.1, position))) := by
  refine h.setOpened fun n file heq => ?_
  cases heq
  exact h.headers k f.1 f.2 hk

/-- An open file is read. -/
theorem read {k : Nat} {f : List Byte × OpenFile} (hk : s.opened k = some f) (junk into : Mem)
    {numBytes : Int} {position : Nat} (hint : position + numBytes < 2 ^ 31) :
    ∃ buf, f.2.ReadAt s.disk junk into 0 numBytes position =
        some ((Files.moved (f.2.hdr.contents s.disk) numBytes position : Int), buf) ∧
      State.firstBytes buf (Files.moved (f.2.hdr.contents s.disk) numBytes position) =
        Files.taken (f.2.hdr.contents s.disk) numBytes position := by
  obtain ⟨-, -, -, -, hvalid, -⟩ := h.open_file hk
  rw [← FileHeader.count_eq_moved]
  exact ⟨_, OpenFile.ReadAt_eq hvalid hint, FileHeader.taken_eq⟩

/-- An open file is written. -/
theorem write {k : Nat} {f : List Byte × OpenFile} (hk : s.opened k = some f) (junk source : Mem)
    {numBytes : Int} {position : Nat} (hint : position + numBytes < 2 ^ 31) :
    ∃ disk', f.2.WriteAt s.disk junk source numBytes position =
        some ((Files.moved (f.2.hdr.contents s.disk) numBytes position : Int), disk') ∧
      Abstracts { s with disk := disk' } (a.setBytes f.1
        (some (Files.put (f.2.hdr.contents s.disk) source numBytes position))) := by
  obtain ⟨e₀, b₀, hfile, hhdr, hvalid, hpos, hbytes, -⟩ := h.open_file hk
  obtain ⟨disk', hdisk', hwritten, hframe⟩ := OpenFile.WriteAt_eq s.disk junk source hvalid hint
  have hput := FileHeader.put_eq hwritten
  rw [FileHeader.count_eq_moved] at hdisk'
  have hw : Written s.disk disk' b₀ := fun b hb a ha => hframe a (by
    rw [ha, hhdr]
    exact hb)
  refine ⟨disk', hdisk', hw.good h.good hfile, fun e n b hf => ?_, fun n hn => ?_, ?_, ?_,
    h.handles, fun j n file hj => ?_⟩
  · have hold := (hw.file_eq h.good hfile).symm.trans hf
    by_cases he : e = e₀
    · subst he
      cases hfile.symm.trans hold
      rw [hw.header h.good hfile hfile, ← hhdr, hput]
      exact ⟨hpos, Function.update_self ..⟩
    · have hne : n ≠ f.1 := fun heq => he (h.good.names e e₀ n b b₀ hold (heq ▸ hfile))
      obtain ⟨hpos', hbytes'⟩ := h.named e n b hold
      refine ⟨?_, (Function.update_of_ne hne _ _).trans (hbytes'.trans ?_)⟩
      · rw [hw.header h.good hfile hold]
        exact hpos'
      · rw [hw.contents h.good hfile hold he]
  · have hn' : a.bytes n ≠ none := by
      by_cases heq : n = f.1
      · rw [heq, hbytes]
        simp
      · exact fun hnone => hn ((Function.update_of_ne heq _ _).trans hnone)
    obtain ⟨e, b, hf⟩ := h.only n hn'
    exact ⟨e, b, (hw.file_eq h.good hfile).trans hf⟩
  · rw [show (a.setBytes f.1 _).entries = a.entries from rfl, h.entries]
    congr 1
    ext e
    rw [mem_unused, mem_unused, hw.file_eq h.good hfile]
  · have hsame : (s.fs.freeMap disk').NumClear = (s.fs.freeMap s.disk).NumClear :=
      WordMap.NumClear_congr rfl fun b hb => hw.freeMap h.good hfile hb
    exact h.sectors.trans hsame.symm
  · obtain ⟨e, b, hf, heq⟩ := h.headers j n file hj
    refine ⟨e, b, (hw.file_eq h.good hfile).trans hf, heq.trans ?_⟩
    rw [hw.header h.good hfile hf]

/-- The machine starts again: the two files are opened as they were. -/
theorem mount : FileSystem.mount s.disk = some s.fs ∧
    Abstracts ⟨s.disk, s.fs, fun _ => none⟩ { a with handles := fun _ => none } := by
  refine ⟨?_, h.good, h.named, h.only, h.entries, h.sectors, fun _ => rfl, fun k n f hk => ?_⟩
  · rw [mount_eq, ← h.good.freeMapHeader, ← h.good.directoryHeader]
  · cases hk

/-! ### Every request -/

/-- **A careful request is answered**, whatever `new` leaves in memory, and as `Files` answers
it. -/
theorem serve (junk : Mem) (r : Request) (hcareful : Careful s r) :
    ∃ answer s' a', s.serve junk r = some (answer, s') ∧ Files.Step a (r, answer) a' ∧
      Abstracts s' a' := by
  cases r with
  | create name size =>
    rcases h.good.create_cases junk name size ⟨by have := hcareful.1; omega, hcareful.2⟩
      with ⟨hrefused, hcreate⟩ | ⟨hnot, disk', hcreate, hcreated⟩
    · have hsectors := sectorsOf_eq hcareful.1
      have hasectors := h.sectors
      refine ⟨.done false, s, a, ?_, .refused ?_, h⟩
      · rw [State.serve, hcreate]
        rfl
      · refine hrefused.imp ?_ (Or.imp h.entries_eq_zero.mpr ?_)
        · rintro ⟨e, b, hf⟩
          rw [(h.named e _ b hf).2]
          simp
        · intro hfew
          omega
    · obtain ⟨a', hstep, ha'⟩ := h.create hcareful.1 hcreated hnot
      refine ⟨.done true, _, a', ?_, hstep, ha'⟩
      rw [State.serve, hcreate]
      rfl
  | remove name =>
    rcases h.good.remove_cases junk name with ⟨e, b, disk', hremove, hr, hleft⟩ | ⟨hname, hremove⟩
    · obtain ⟨a', hstep, ha'⟩ := h.remove hr hleft hcareful
      refine ⟨.done true, _, a', ?_, hstep, ha'⟩
      rw [State.serve, hremove]
      rfl
    · refine ⟨.done false, s, a, ?_, .notRemoved (h.bytes_eq_none hname), h⟩
      rw [State.serve, hremove]
      rfl
  | openAs k name =>
    rcases h.good.open_cases junk name with ⟨e, b, hf, hopen⟩ | ⟨hname, hopen⟩
    · refine ⟨.done true, s.setOpened k (some (key name, ⟨header s.disk b, 0⟩)), _, ?_,
        .opened ?_, h.setOpened fun n file heq => ?_⟩
      · rw [State.serve, hopen]
        rfl
      · rw [(h.named e _ b hf).2]
        simp
      · cases heq
        exact ⟨e, b, hf, rfl⟩
    · refine ⟨.done false, s, a, ?_, .notOpened (h.bytes_eq_none hname), h⟩
      rw [State.serve, hopen]
      rfl
  | close k => exact ⟨.nothing, _, _, rfl, .closed, h.setOpened (by rintro n file ⟨⟩)⟩
  | seek k position =>
    obtain ⟨f, hk⟩ := hcareful
    obtain ⟨-, -, -, -, -, -, -, hhandle⟩ := h.open_file hk
    refine ⟨.nothing, _, _, ?_, .sought hhandle, h.move hk position⟩
    rw [State.serve, hk]
    rfl
  | length k =>
    obtain ⟨f, hk⟩ := hcareful
    obtain ⟨-, -, -, -, -, hpos, hbytes, hhandle⟩ := h.open_file hk
    refine ⟨.count f.2.hdr.numBytes, s, a, ?_, ?_, h⟩
    · rw [State.serve, hk]
      rfl
    · have hlength := Files.Step.length hhandle hbytes
      rw [FileHeader.contents_length, Int.toNat_of_nonneg hpos] at hlength
      exact hlength
  | read k numBytes =>
    obtain ⟨f, hk, hint⟩ := hcareful
    obtain ⟨-, -, -, -, -, -, hbytes, hhandle⟩ := h.open_file hk
    obtain ⟨buf, hread, htaken⟩ := h.read hk junk junk hint
    refine ⟨_, _, _, ?_, .read hhandle hbytes, h.move hk _⟩
    rw [State.serve, hk, Option.bind_some]
    dsimp only
    rw [OpenFile.Read, hread, ← htaken]
    rfl
  | write k source numBytes =>
    obtain ⟨f, hk, hint⟩ := hcareful
    obtain ⟨-, -, -, -, -, -, hbytes, hhandle⟩ := h.open_file hk
    obtain ⟨disk', hwrite, ha'⟩ := h.write hk junk source hint
    refine ⟨_, _, _, ?_, .write hhandle hbytes, ha'.move hk _⟩
    rw [State.serve, hk, Option.bind_some]
    dsimp only
    rw [OpenFile.Write, hwrite]
    rfl
  | readAt k numBytes position =>
    obtain ⟨⟨f, hk⟩, hint⟩ := hcareful
    obtain ⟨-, -, -, -, -, -, hbytes, hhandle⟩ := h.open_file hk
    obtain ⟨buf, hread, htaken⟩ := h.read hk junk junk hint
    refine ⟨_, s, a, ?_, .readAt hhandle hbytes, h⟩
    rw [State.serve, hk, Option.bind_some]
    dsimp only
    rw [hread, ← htaken]
    rfl
  | writeAt k source numBytes position =>
    obtain ⟨⟨f, hk⟩, hint⟩ := hcareful
    obtain ⟨-, -, -, -, -, -, hbytes, hhandle⟩ := h.open_file hk
    obtain ⟨disk', hwrite, ha'⟩ := h.write hk junk source hint
    refine ⟨_, _, _, ?_, .writeAt hhandle hbytes, ha'⟩
    rw [State.serve, hk, Option.bind_some]
    dsimp only
    rw [hwrite]
    rfl
  | mount =>
    obtain ⟨hmount, ha'⟩ := h.mount
    refine ⟨.nothing, _, _, ?_, .mounted, ha'⟩
    rw [State.serve, hmount]
    rfl

end Abstracts

/-! ### Runs from a formatted disk -/

/-- The machine after formatting. -/
def State.Initial (s : State) : Prop :=
  ∃ disk junk, FileSystem.format disk junk = some (s.fs, s.disk) ∧ s.opened = fun _ => none

/-- A run of careful requests from a formatted disk. -/
def State.Run (s₀ : State) (l : List (Request × Answer)) (s : State) : Prop :=
  s₀.Initial ∧ Path (Restrict Step fun s a => Careful s a.1) s₀ l s

theorem State.Initial.abstracts {s : State} (h : s.Initial) : Abstracts s .empty := by
  obtain ⟨disk, junk, hformat, hopened⟩ := h
  obtain ⟨fs, disk', hformat', hgood, hfile, hleft⟩ := format_good disk junk
  have hsame := hformat'.symm.trans hformat
  obtain ⟨rfl, rfl⟩ := Prod.mk.inj (Option.some.inj hsame)
  refine ⟨hgood, fun e n b hf => ?_, fun n hn => absurd rfl hn, ?_, ?_, fun k => ?_,
    fun k n f hk => ?_⟩
  · cases (hfile e).symm.trans hf
  · have hall : s.fs.unused s.disk = Finset.range NumDirEntries := by
      ext e
      rw [mem_unused, Finset.mem_range]
      exact ⟨And.left, fun he => ⟨he, hfile e⟩⟩
    rw [hall, Finset.card_range]
    rfl
  · exact hleft.symm
  · rw [hopened]
    rfl
  · rw [hopened] at hk
    cases hk

/-- **Refinement**: what a run answers is what `Files` answers, from no file on. -/
theorem State.Run.abstracts {s₀ s : State} {l : List (Request × Answer)} (h : State.Run s₀ l s) :
    ∃ a, Path Files.Step .empty l a ∧ Abstracts s a := by
  obtain ⟨hinit, hpath⟩ := h
  refine hpath.refine (fun s r s' a hs hstep => ?_) hinit.abstracts
  obtain ⟨⟨junk, hserve⟩, hcareful⟩ := hstep
  obtain ⟨answer, s₁, a', hserve', hstep', ha'⟩ := hs.serve junk r.1 hcareful
  obtain ⟨hanswer, rfl⟩ := Prod.mk.inj (Option.some.inj (hserve.symm.trans hserve'))
  refine ⟨a', ?_, ha'⟩
  rw [← hanswer] at hstep'
  exact hstep'

end Nachos.FileSys
