import Xv6.Process.Failure

/-!
# Program files

`exec` of a file with given contents. The offsets of an ELF file are 64-bit numbers, and
`readi` takes a `uint`: `off` of `exec` is an `int`, and `offset` of `loadseg` a `uint`. So
`readi` checks the offsets only after they have been cut to 32 bits.
-/

namespace Xv6.Process

open Lib List Mem

/-! ## Files -/

/-- The contents of a file. -/
structure Contents where
  bytes : List UInt8
  /-- `size` is a `uint`. -/
  small : bytes.length < 2 ^ 32

namespace Contents

/-- `readi`, whose `off` and `n` are `uint`s. -/
def readi (d : Contents) (off n : Nat) : List UInt8 :=
  if off > d.bytes.length ∨ (off + n) % 2 ^ 32 < off then [] else (d.bytes.drop off).take n

def inode (d : Contents) : Inode where
  readi := d.readi
  readi_le := fun off n => by
    unfold readi
    split
    next => exact Nat.zero_le n
    next =>
      rw [length_take]
      exact Nat.min_le_left ..

/-- The ELF header. -/
def elf (d : Contents) : Elfhdr := elfhdr (d.bytes.take elfSize)

/-- The program header at an offset. -/
def header (d : Contents) (off : Nat) : Proghdr := proghdr ((d.bytes.drop off).take proghdrSize)

/-- The program headers that `exec` reads: the offset of the table goes through an `int`. -/
def headers (d : Contents) : List Proghdr :=
  (range d.elf.phnum).map fun i => d.header (d.elf.phoff % 2 ^ 32 + proghdrSize * i)

/-- The segments to load. -/
def segments (d : Contents) : List Proghdr := d.headers.filter fun ph => ph.type = elfProgLoad

variable {d : Contents} {off n : Nat}

/-- A read of all bytes asked for. -/
lemma readi_whole (hpos : 0 < n) (h : (d.readi off n).length = n) :
    off + n ≤ d.bytes.length ∧ d.readi off n = (d.bytes.drop off).take n := by
  unfold readi at h ⊢
  split at h
  next => exact absurd h (by rw [length_nil]; omega)
  next hin =>
    rw [length_take, length_drop] at h
    refine ⟨by omega, ?_⟩
    rw [if_neg hin]

lemma parts_le (ip : Inode) (offset sz : Nat) :
    ∀ (more i : Nat), (ip.parts offset sz i more).length ≤ sz - i := by
  intro more
  induction more with
  | zero => exact fun i => Nat.zero_le _
  | succ more ih =>
    intro i
    have hpart := ip.readi_le ((offset + i) % 2 ^ 32) (if sz - i < pgSize then sz - i else pgSize)
    have hrest := ih (i + pgSize)
    rw [Inode.parts, length_append, Inode.part]
    unfold pgSize at *
    split at hpart <;> rename_i hlt
    · rw [if_pos hlt]
      omega
    · rw [if_neg hlt]
      omega

/-- If `loadseg` reads all bytes from `i` on then they are inside the file. -/
lemma parts_eq {offset sz : Nat} :
    ∀ (more i : Nat), offset + i < 2 ^ 32 → more = (sz - i + 4095) / 4096 →
      (d.inode.parts offset sz i more).length = sz - i →
      d.inode.parts offset sz i more = (d.bytes.drop (offset + i)).take (sz - i) ∧
        (i < sz → offset + sz ≤ d.bytes.length) := by
  intro more
  induction more with
  | zero =>
    intro i _ hmore _
    have hle : sz - i = 0 := by omega
    rw [hle, take_zero]
    exact ⟨rfl, fun hlt => by omega⟩
  | succ more ih =>
    intro i hoff hmore hlen
    have hlt : i < sz := by omega
    have hn : (if sz - i < pgSize then sz - i else pgSize) = min (sz - i) 4096 := by
      unfold pgSize
      split <;> omega
    have hmod : (offset + i) % 2 ^ 32 = offset + i := Nat.mod_eq_of_lt hoff
    have hpart := d.inode.readi_le ((offset + i) % 2 ^ 32) (min (sz - i) 4096)
    have hrest := parts_le d.inode offset sz more (i + pgSize)
    rw [Inode.parts, length_append, Inode.part, hn] at hlen
    rw [Inode.parts, Inode.part, hn]
    rw [hmod] at hlen hpart ⊢
    have hpg : i + pgSize = i + 4096 := rfl
    rw [hpg] at hlen hrest ⊢
    have hwhole : (d.readi (offset + i) (min (sz - i) 4096)).length = min (sz - i) 4096 := by
      change (d.inode.readi _ _).length = _
      omega
    obtain ⟨hin, hread⟩ := d.readi_whole (by omega) hwhole
    have hsmall := d.small
    have hread' : d.inode.readi (offset + i) (min (sz - i) 4096) =
        (d.bytes.drop (offset + i)).take (min (sz - i) 4096) := hread
    by_cases hlast : sz - i ≤ 4096
    · obtain rfl : more = 0 := by omega
      rw [hread', Inode.parts, append_nil, Nat.min_eq_left hlast]
      exact ⟨rfl, fun _ => by omega⟩
    · obtain ⟨heq, hbound⟩ := ih (i + 4096) (by omega) (by omega) (by omega)
      refine ⟨?_, fun _ => hbound (by omega)⟩
      have hsum : sz - i = 4096 + (sz - (i + 4096)) := by omega
      have hmin : min (sz - i) 4096 = 4096 := by omega
      rw [hread', heq, hmin, hsum, take_add, drop_drop, Nat.add_assoc]

/-- The segment that `loadseg` reads is part of the file. -/
lemma segment_eq {sz : Nat} (hoff : off < 2 ^ 32) (h : (d.inode.segment off sz).length = sz) :
    d.inode.segment off sz = (d.bytes.drop off).take sz ∧ (0 < sz → off + sz ≤ d.bytes.length) :=
  parts_eq _ 0 hoff rfl h

/-- The headers that the loop of `exec` reads are inside the file. -/
lemma headers_eq : ∀ (n : Nat) {off : Nat} {phs : List Proghdr}, off < 2 ^ 32 →
    d.inode.headers off n = some phs →
    phs = (range n).map (fun i => d.header (off + proghdrSize * i)) ∧
      (0 < n → off + proghdrSize * n ≤ d.bytes.length) := by
  intro n
  induction n with
  | zero =>
    intro off phs _ h
    obtain rfl : [] = phs := Option.some.inj h
    exact ⟨rfl, fun hlt => absurd hlt (by omega)⟩
  | succ n ih =>
    intro off phs hoff h
    rw [Inode.headers] at h
    split at h
    next hread =>
      obtain ⟨rest, hrest, rfl⟩ := Option.map_eq_some_iff.mp h
      obtain ⟨hin, heq⟩ := d.readi_whole (by decide) hread
      have hsmall := d.small
      rw [Nat.mod_eq_of_lt (by omega)] at hrest
      obtain ⟨rfl, hbound⟩ := ih (by omega) hrest
      refine ⟨?_, fun _ => ?_⟩
      · rw [range_succ_eq_map, map_cons, map_map]
        refine congrArg₂ _ ?_ (map_congr_left fun i _ => ?_)
        · change proghdr (d.readi off proghdrSize) = _
          rw [heq]
          rfl
        · show d.header _ = d.header _
          congr 1
          rw [Nat.succ_eq_add_one, Nat.mul_add]
          omega
      · cases n with
        | zero => exact hin
        | succ n =>
          have := hbound (by omega)
          unfold proghdrSize at this ⊢
          omega
    next => cases h

end Contents

/-! ## Calls of `exec` -/

variable [Layout] {K K' : Kernel} {o o' : Nat → Owner} {p r tf : Nat} {s : Phys}

/-- The kernel in the middle of a call of process `p`. -/
def Serving (K : Kernel) (p : Nat) : Prop := (∃ o, MemInv K o) ∧ (K.proc p).pagetable ≠ 0

lemma Sound.serving {A : List Nat} (h : Sound A K) (hr : Running K p) : Serving K p := by
  obtain ⟨o, hinv⟩ := h
  exact ⟨⟨o, hinv.mem⟩, (hinv.complete p).used hr.used⟩

/-- What `exec` knows of a file that it has loaded. -/
structure Contents.Checked (d : Contents) : Prop where
  /-- The table of program headers, as it was read, is inside the file. -/
  table : 0 < d.elf.phnum → d.elf.phoff % 2 ^ 32 + proghdrSize * d.elf.phnum ≤ d.bytes.length
  accepted : ∀ ph ∈ d.segments, Accepted d.inode ph
  /-- So are the segments. -/
  inside : ∀ ph ∈ d.segments, 0 < ph.filesz → ph.off % 2 ^ 32 + ph.filesz ≤ d.bytes.length
  segment : ∀ ph ∈ d.segments, d.inode.segment (ph.off % 2 ^ 32) (ph.filesz % 2 ^ 32) =
    (d.bytes.drop (ph.off % 2 ^ 32)).take ph.filesz

omit [Layout] in
lemma mod_lt_pow (n : Nat) : n % 2 ^ 32 < 2 ^ 32 := Nat.mod_lt n (by decide)

lemma Ready.checked {d : Contents} {phs : List Proghdr} (h : Ready p K o d.inode phs r tf s o') :
    d.inode.readi 0 elfSize = d.bytes.take elfSize ∧ phs = d.headers ∧ d.Checked := by
  have hwhole : (d.readi 0 elfSize).length = elfSize := h.whole
  have helf : d.inode.readi 0 elfSize = d.bytes.take elfSize := (Contents.readi_whole (by decide) hwhole).2
  have hheaders := h.headers
  rw [helf] at hheaders
  obtain ⟨rfl, htable⟩ := Contents.headers_eq _ (mod_lt_pow _) hheaders
  have haccepted : ∀ ph ∈ d.segments, Accepted d.inode ph := fun ph hph => by
    obtain ⟨hmem, htype⟩ := mem_filter.mp hph
    exact h.accepted ph hmem (of_decide_eq_true htype)
  have hsegment : ∀ ph ∈ d.segments, d.inode.segment (ph.off % 2 ^ 32) (ph.filesz % 2 ^ 32) =
      (d.bytes.drop (ph.off % 2 ^ 32)).take ph.filesz ∧
      (0 < ph.filesz → ph.off % 2 ^ 32 + ph.filesz ≤ d.bytes.length) := fun ph hph => by
    have hacc := haccepted ph hph
    have hmod : ph.filesz % 2 ^ 32 = ph.filesz := by
      have := hacc.bound
      have := hacc.filesz
      omega
    have hwhole := hacc.whole
    rw [hmod] at hwhole ⊢
    exact Contents.segment_eq (mod_lt_pow _) hwhole
  exact ⟨helf, rfl, htable, haccepted, fun ph hph => (hsegment ph hph).2,
    fun ph hph => (hsegment ph hph).1⟩

/-- A call of `exec` that succeeds has loaded its file. -/
lemma exec_loaded {namei : Namei} {path : List UInt8} {argv : List Nat} {res : Int} {d : Contents}
    (h : MemInv K o) (hne : (K.proc p).pagetable ≠ 0) (hn : namei path = some d.inode)
    (hok : exec p namei path argv K = .ok (res, K')) (hres : res ≠ -1) :
    d.Checked ∧ ∃ r tf strs, strs.length = argv.length ∧ Fits strs ∧
      Committed p K o K' r tf (argImage (imageOf d.inode d.headers) (imageOf d.inode d.headers).size strs)
        (argTop (imageOf d.inode d.headers).size strs) d.elf.entry := by
  rcases exec_run h hne namei path with ⟨s, -, hrun⟩ | ⟨ip, phs, r, tf, s, o', hip, hr, hrun⟩
  · rw [hrun argv] at hok
    cases hok
    exact absurd rfl hres
  · obtain rfl : ip = d.inode := Option.some.inj (hip.symm.trans hn)
    obtain ⟨helf, rfl, hchecked⟩ := hr.checked
    rw [hrun argv] at hok
    obtain ⟨strs, hread, ⟨hbad, -⟩ | ⟨-, hfits, hc⟩⟩ := (hr.finish h hne _ argv).eq hok
    · exact absurd hbad hres
    · rw [helf] at hc
      exact ⟨hchecked, r, tf, strs, hread.length_eq.symm, hfits.2, hc⟩

/-! ## The offsets of a file -/

/-- The table of program headers and the segments are inside the file. -/
def Contents.Inside (d : Contents) : Prop :=
  d.elf.phoff + d.elf.phnum * proghdrSize ≤ d.bytes.length ∧
    ∀ ph ∈ d.segments, 0 < ph.filesz → ph.off + ph.filesz ≤ d.bytes.length

/-- The offsets that `exec` uses fit into a `uint`. -/
def Contents.Narrow (d : Contents) : Prop :=
  d.elf.phoff < 2 ^ 32 ∧ ∀ ph ∈ d.segments, 0 < ph.filesz → ph.off < 2 ^ 32

/-- What `exec` loads is inside the file if and only if no offset was cut. -/
theorem exec_inside_iff {namei : Namei} {path : List UInt8} {argv : List Nat} {res : Int}
    {d : Contents} (hK : Serving K p) (hn : namei path = some d.inode) (hphnum : 0 < d.elf.phnum)
    (hok : exec p namei path argv K = .ok (res, K')) (hres : res ≠ -1) : d.Inside ↔ d.Narrow := by
  obtain ⟨⟨o, h⟩, hne⟩ := hK
  obtain ⟨hchecked, -⟩ := exec_loaded h hne hn hok hres
  have hsmall := d.small
  have htable := hchecked.table hphnum
  constructor
  · rintro ⟨hphoff, hsegs⟩
    refine ⟨by omega, fun ph hph hpos => ?_⟩
    have := hsegs ph hph hpos
    omega
  · rintro ⟨hphoff, hsegs⟩
    rw [Nat.mod_eq_of_lt hphoff] at htable
    refine ⟨by rw [Nat.mul_comm]; exact htable, fun ph hph hpos => ?_⟩
    have hin := hchecked.inside ph hph hpos
    rwa [Nat.mod_eq_of_lt (hsegs ph hph hpos)] at hin

/-! ## Files that can be run -/

section

omit [Layout]

/-- The page table, the segments and the stack of a new program can be made. -/
def starts (p : Nat) (ip : Inode) (K : Kernel) : Bool :=
  let elf := elfhdr (ip.readi 0 elfSize)
  decide ((ip.readi 0 elfSize).length = elfSize) && decide (elf.magic = elfMagic) &&
    match procPagetable (K.proc p).trapframe K.phys with
    | .ok (pagetable, s) =>
      decide (pagetable ≠ 0) &&
        match segRounds pagetable ip (elf.phoff % 2 ^ 32) 0 elf.phnum s with
        | .ok ((true, sz), s) =>
          match makeStack pagetable sz [] s with
          | .ok ((_, some _), _) => true
          | _ => false
        | _ => false
    | .error _ => false

/-- A file with one program header, which is not loaded, and `phoff` in its ELF header. -/
def oneHeader (phoff : Nat) : Contents where
  bytes := leBytes 4 elfMagic ++ replicate 28 0 ++ leBytes 8 phoff ++ replicate 16 0 ++
    leBytes 2 1 ++ replicate 62 0
  small := by simp [leBytes]

/-- The first process of a machine can run the file. -/
def runsFirst (ip : Inode) : Bool :=
  letI := crowded
  match Machine.sixteen.start with
  | .ok (_, K₀) => starts 0 ip K₀
  | .error _ => false

lemma runsFirst_far : runsFirst (oneHeader (2 ^ 32 + 64)).inode = true := by decide +kernel

lemma runsFirst_near : runsFirst (oneHeader 64).inode = true := by decide +kernel

end

/-- Then `exec` without arguments succeeds. -/
lemma exec_of_starts (namei : Namei) (path : List UInt8) {ip : Inode} (hK : Serving K p)
    (hn : namei path = some ip) (hs : starts p ip K = true) :
    ∃ K', exec p namei path [] K = .ok (0, K') := by
  obtain ⟨⟨o, h⟩, hne⟩ := hK
  have hvalue : Ends (exec p namei path []) K (fun res _ => res = 0) fun _ => True := by
    unfold starts at hs
    simp only [Bool.and_eq_true, decide_eq_true_eq] at hs
    obtain ⟨⟨hlen, hmagic⟩, hs⟩ := hs
    unfold exec
    rw [hn]
    dsimp only
    rw [if_neg (not_not_intro hlen), if_neg (not_not_intro hmagic)]
    refine ends_bind_of_eq (m := getProc p) rfl ?_
    split at hs
    next pagetable s₁ hrun₁ =>
      simp only [Bool.and_eq_true, decide_eq_true_eq] at hs
      refine ends_bind_of_eq (onPhys_of_ok hrun₁) ?_
      rw [if_neg hs.1]
      replace hs := hs.2
      split at hs
      next sz s₂ hrun₂ =>
        refine ends_bind_of_eq (onPhys_of_ok hrun₂) ?_
        dsimp only
        rw [if_neg (by decide)]
        split at hs
        next sz' sp s₃ hrun₃ =>
          refine ends_bind_of_eq (onPhys_of_ok hrun₃) ?_
          dsimp only
          refine (ends_trivial _ _).bind fun _ _ _ => (ends_trivial _ _).bind fun _ _ _ => ?_
          refine (ends_trivial _ _).bind fun _ _ _ => (ends_trivial _ _).bind fun _ _ _ => ?_
          exact (ends_trivial _ _).bind fun _ _ _ => ends_pure rfl
        next => cases hs
      next => cases hs
    next => cases hs
  obtain ⟨res, K', hrun, -⟩ := exec_spec h hne namei path []
  obtain rfl : res = 0 := hvalue.ok hrun
  exact ⟨K', hrun⟩

omit [Layout] in
lemma exec_of_runsFirst {ip : Inode} (h : runsFirst ip = true) :
    letI := crowded
    ∃ A K₀ K', Machine.sixteen.start = .ok (A, K₀) ∧ Serving K₀ 0 ∧
      exec 0 (fun _ => some ip) [] [] K₀ = .ok (0, K') := by
  let _ := crowded
  obtain ⟨A, K₀, hstart, hinv, hr, -⟩ := Machine.sixteen_start
  unfold runsFirst at h
  rw [hstart] at h
  have hserving := Sound.serving hinv hr
  obtain ⟨K', hexec⟩ := exec_of_starts (fun _ => some ip) [] hserving rfl h
  exact ⟨A, K₀, K', hstart, hserving, hexec⟩

omit [Layout] in
/-- The table of this file starts 4 GiB after its end, and `exec` runs it. -/
theorem exec_offset_cut :
    letI := crowded
    ∃ A K₀ K', Machine.sixteen.start = .ok (A, K₀) ∧ Serving K₀ 0 ∧
      0 < (oneHeader (2 ^ 32 + 64)).elf.phnum ∧
      exec 0 (fun _ => some (oneHeader (2 ^ 32 + 64)).inode) [] [] K₀ = .ok (0, K') ∧
      ¬ (oneHeader (2 ^ 32 + 64)).Inside := by
  obtain ⟨A, K₀, K', hstart, hserving, hexec⟩ := exec_of_runsFirst runsFirst_far
  refine ⟨A, K₀, K', hstart, hserving, by decide, hexec, fun hin => ?_⟩
  exact absurd hin.1 (by decide)

omit [Layout] in
theorem exec_inside_iff_near :
    letI := crowded
    ∃ A K₀ K', Machine.sixteen.start = .ok (A, K₀) ∧ Serving K₀ 0 ∧ 0 < (oneHeader 64).elf.phnum ∧
      exec 0 (fun _ => some (oneHeader 64).inode) [] [] K₀ = .ok (0, K') ∧
      ((oneHeader 64).Inside ↔ (oneHeader 64).Narrow) := by
  let _ := crowded
  obtain ⟨A, K₀, K', hstart, hserving, hexec⟩ := exec_of_runsFirst runsFirst_near
  exact ⟨A, K₀, K', hstart, hserving, by decide, hexec,
    exec_inside_iff hserving rfl (by decide) hexec (by decide)⟩

end Xv6.Process
