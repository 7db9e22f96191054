/-
The boot image: `mkimage.py`, which packs it, and the header as the firmware reads it.
-/
import OsAgentLab.Memory
import OsAgentLab.Firmware.Disk

namespace OsAgentLab

namespace Firmware

/-- The exceptions of `mkimage.py`. -/
inductive Failure where
  | structError
  | valueError
  | osError
deriving DecidableEq, Repr

/-- `SECTOR_SIZE`, `HEADER_SIZE`, `IMAGE_MAGIC` and `IMAGE_VERSION`. -/
def sectorSize : Nat := 512
def headerSize : Nat := 64
def imageMagic : Nat := 0x474d495643534952
def imageVersion : Nat := 1

/-- `align_up`. -/
def alignUp (value align : Nat) : Nat := (value + align - 1) / align * align

/-- One field of `struct.pack`, little-endian in `width` bytes; larger values are refused. -/
def packField (width n : Nat) : Except Failure (List UInt8) :=
  if n < 256 ^ width then .ok ((List.range width).map (byteOf n)) else .error .structError

/-- `struct.pack` of fields with the given widths. -/
def structPack : List (Nat × Nat) → Except Failure (List UInt8)
  | [] => .ok []
  | (width, n) :: rest => do
      let bytes ← packField width n
      let more ← structPack rest
      .ok (bytes ++ more)

/-- `out.write(data)`; the position in a file is a signed 64-bit number. -/
def outWrite (out data : List UInt8) : Except Failure (List UInt8) :=
  if (out ++ data).length < 9223372036854775808 then .ok (out ++ data) else .error .osError

/-- `build_image` on the contents of its two input files; the result is the output file. -/
def buildImage (kernel initrd : List UInt8) : Except Failure (List UInt8) := do
  let kernelOffset := sectorSize
  let kernelSize := kernel.length
  let initrdOffset := alignUp (kernelOffset + kernelSize) sectorSize
  let initrdSize := initrd.length
  let header ← structPack [(8, imageMagic), (4, imageVersion), (4, headerSize),
    (8, kernelOffset), (8, kernelSize), (8, initrdOffset), (8, initrdSize), (8, 0)]
  if headerSize < header.length then .error .valueError
  else do
    let header := header ++ List.replicate (headerSize - header.length) 0
    if sectorSize < header.length then .error .valueError
    else do
      let out ← outWrite [] header
      let out ← outWrite out (List.replicate (sectorSize - header.length) 0)
      let out ← outWrite out kernel
      let pad := initrdOffset - (kernelOffset + kernelSize)
      let out ← (if pad ≠ 0 then outWrite out (List.replicate pad 0) else .ok out)
      if initrdSize ≠ 0 then outWrite out initrd else .ok out

/-- `struct image_header`. -/
structure ImageHeader where
  magic : Nat
  version : Nat
  headerSize : Nat
  kernelOffset : Nat
  kernelSize : Nat
  initrdOffset : Nat
  initrdSize : Nat
  flags : Nat
deriving DecidableEq, Repr

/-- `sizeof(struct image_header)`. -/
def imageHeaderSize : Nat := 56

/-- The structure with the given bytes. -/
def ImageHeader.ofBytes (bytes : Nat → UInt8) : ImageHeader where
  magic := le64 bytes 0
  version := le32 bytes 8
  headerSize := le32 bytes 12
  kernelOffset := le64 bytes 16
  kernelSize := le64 bytes 24
  initrdOffset := le64 bytes 32
  initrdSize := le64 bytes 40
  flags := le64 bytes 48

/-- `disk_read_bytes(IMAGE_HEADER_OFFSET, &hdr, sizeof(hdr))`. -/
def readImageHeader (read : Nat → Option Sector) : Option ImageHeader :=
  (diskReadBytes read 0 imageHeaderSize).map fun bytes => .ofBytes fun i => bytes.getD i 0

/-- The header passes the check in `firmware_main`. -/
def ImageHeader.Accepted (hdr : ImageHeader) : Prop :=
  hdr.magic = imageMagic ∧ hdr.version = imageVersion

/-- The bytes of a disk that holds the file, padded with zeros. -/
def fileBytes (file : List UInt8) (i : Nat) : UInt8 := file.getD i 0

variable {kernel initrd file : List UInt8} {read : Nat → Option Sector}

section Fields

/-- The bytes of fields with the given widths. -/
def packed (fields : List (Nat × Nat)) : List UInt8 :=
  fields.flatMap fun p => (List.range p.1).map (byteOf p.2)

theorem packed_length (fields : List (Nat × Nat)) :
    (packed fields).length = (fields.map Prod.fst).sum := by
  induction fields with
  | nil => rfl
  | cons p rest ih =>
      rw [packed, List.flatMap_cons, List.length_append, List.length_map, List.length_range,
        List.map_cons, List.sum_cons]
      exact congrArg _ ih

/-- A field lies behind those in front of it. -/
theorem packed_getD (pre post : List (Nat × Nat)) (width n : Nat) {i : Nat} (hi : i < width) :
    (packed (pre ++ (width, n) :: post)).getD ((pre.map Prod.fst).sum + i) 0 = byteOf n i := by
  have hsplit : packed (pre ++ (width, n) :: post) =
      packed pre ++ ((List.range width).map (byteOf n) ++ packed post) := by
    rw [packed, List.flatMap_append, List.flatMap_cons]
    rfl
  rw [hsplit, ← packed_length, List.getD_append_right _ _ _ _ (Nat.le_add_right ..),
    Nat.add_sub_cancel_left, List.getD_append _ _ _ _ (by simpa using hi)]
  simp [hi]

theorem le64_of_bytes {m : Nat → UInt8} {off n : Nat} (hn : n < 18446744073709551616)
    (h : ∀ i, i < 8 → m (off + i) = byteOf n i) : le64 m off = n := by
  rw [← @le64_put64_self m off n hn]
  apply le64_congr
  intro i hi
  rw [h i hi, put64, overlay_of_mem (by omega), Nat.add_sub_cancel_left]

end Fields

section Parts

theorem packField_ok {width n : Nat} {bytes : List UInt8} (h : packField width n = .ok bytes) :
    n < 256 ^ width ∧ bytes = (List.range width).map (byteOf n) := by
  rw [packField] at h
  by_cases hn : n < 256 ^ width
  · rw [if_pos hn] at h
    exact ⟨hn, (Except.ok.inj h).symm⟩
  · rw [if_neg hn] at h
    cases h

theorem Except.of_bind_ok {ε α β : Type} {m : Except ε α} {f : α → Except ε β} {b : β}
    (h : (m >>= f) = .ok b) : ∃ a, m = .ok a ∧ f a = .ok b := by
  cases m with
  | error e => cases h
  | ok a => exact ⟨a, rfl, h⟩

theorem structPack_ok {fields : List (Nat × Nat)} {bytes : List UInt8}
    (h : structPack fields = .ok bytes) :
    (∀ p ∈ fields, p.2 < 256 ^ p.1) ∧
      bytes = packed fields := by
  induction fields generalizing bytes with
  | nil => exact ⟨fun _ hp => (by cases hp), (Except.ok.inj h).symm⟩
  | cons p rest ih =>
      obtain ⟨width, n⟩ := p
      obtain ⟨field, hfield, h⟩ := Except.of_bind_ok h
      obtain ⟨more, hmore, h⟩ := Except.of_bind_ok h
      obtain ⟨hn, rfl⟩ := packField_ok hfield
      obtain ⟨hrest, rfl⟩ := ih hmore
      refine ⟨fun p hp => ?_, (Except.ok.inj h).symm⟩
      rcases List.mem_cons.mp hp with rfl | hp
      · exact hn
      · exact hrest p hp

theorem outWrite_ok {out data out' : List UInt8} (h : outWrite out data = .ok out') :
    out' = out ++ data ∧ out'.length < 9223372036854775808 := by
  rw [outWrite] at h
  by_cases hlen : (out ++ data).length < 9223372036854775808
  · rw [if_pos hlen] at h
    obtain rfl := Except.ok.inj h
    exact ⟨rfl, hlen⟩
  · rw [if_neg hlen] at h
    cases h

/-- A write that is left out when there is nothing to write. -/
theorem outWrite_nonempty {out data out' : List UInt8} {n : Nat} (hdata : n = 0 → data = [])
    (hout : out.length < 9223372036854775808)
    (h : (if n ≠ 0 then outWrite out data else .ok out) = .ok out') :
    out' = out ++ data ∧ out'.length < 9223372036854775808 := by
  by_cases hn : n ≠ 0
  · rw [if_pos hn] at h
    exact outWrite_ok h
  · rw [if_neg hn] at h
    obtain rfl := Except.ok.inj h
    rw [hdata (not_not.mp hn), List.append_nil]
    exact ⟨rfl, hout⟩

end Parts

section Layout

/-- Where the initrd starts. -/
def initrdStart (kernel : List UInt8) : Nat := alignUp (sectorSize + kernel.length) sectorSize

/-- The fields of the header. -/
def headerFields (kernel initrd : List UInt8) : List (Nat × Nat) :=
  [(8, imageMagic), (4, imageVersion), (4, headerSize), (8, sectorSize), (8, kernel.length),
    (8, initrdStart kernel), (8, initrd.length), (8, 0)]

/-- The bytes of the header. -/
def headerBytes (kernel initrd : List UInt8) : List UInt8 := packed (headerFields kernel initrd)

theorem headerBytes_length : (headerBytes kernel initrd).length = 56 := rfl

/-- What `build_image` writes. -/
structure Layout (kernel initrd file : List UInt8) : Prop where
  fields : ∀ p ∈ headerFields kernel initrd, p.2 < 256 ^ p.1
  short : file.length < 9223372036854775808
  file : file = headerBytes kernel initrd ++ List.replicate 456 0 ++ kernel ++
    List.replicate (initrdStart kernel - (sectorSize + kernel.length)) 0 ++ initrd

theorem initrdStart_ge : sectorSize + kernel.length ≤ initrdStart kernel := by
  simp only [initrdStart, alignUp, sectorSize]
  omega

theorem buildImage_layout (h : buildImage kernel initrd = .ok file) :
    Layout kernel initrd file := by
  obtain ⟨header, hheader, h⟩ := Except.of_bind_ok h
  obtain ⟨hfields, hbytes⟩ := structPack_ok hheader
  obtain rfl : header = headerBytes kernel initrd := hbytes
  rw [if_neg (by
    rw [headerBytes_length]
    decide)] at h
  have hpadded : (headerBytes kernel initrd ++
      List.replicate (headerSize - (headerBytes kernel initrd).length) 0).length = 64 := by
    rw [List.length_append, List.length_replicate, headerBytes_length]
    rfl
  dsimp only at h
  rw [hpadded, if_neg (by decide)] at h
  obtain ⟨out₁, h₁, h⟩ := Except.of_bind_ok h
  obtain ⟨out₂, h₂, h⟩ := Except.of_bind_ok h
  obtain ⟨out₃, h₃, h⟩ := Except.of_bind_ok h
  obtain ⟨rfl, _⟩ := outWrite_ok h₁
  obtain ⟨rfl, _⟩ := outWrite_ok h₂
  obtain ⟨rfl, hshort₃⟩ := outWrite_ok h₃
  obtain ⟨out₄, h₄, h⟩ := Except.of_bind_ok h
  obtain ⟨rfl, hshort₄⟩ := outWrite_nonempty (fun hzero => by rw [hzero]; rfl) hshort₃ h₄
  obtain ⟨rfl, hshort⟩ := outWrite_nonempty List.length_eq_zero_iff.mp hshort₄ h
  refine ⟨hfields, hshort, ?_⟩
  have hzeros : List.replicate 456 (0 : UInt8) = List.replicate 8 0 ++ List.replicate 448 0 := rfl
  rw [hzeros, headerBytes_length]
  simp only [List.nil_append, List.append_assoc]
  rfl

namespace Layout

variable (h : Layout kernel initrd file)
include h

theorem length : file.length = initrdStart kernel + initrd.length := by
  have hge := @initrdStart_ge kernel
  rw [h.file]
  simp only [List.length_append, List.length_replicate, headerBytes_length, sectorSize] at hge ⊢
  omega

theorem header_byte {i : Nat} (hi : i < 56) :
    fileBytes file i = (headerBytes kernel initrd).getD i 0 := by
  rw [fileBytes, h.file]
  simp only [List.append_assoc]
  exact List.getD_append _ _ _ _ (by rwa [headerBytes_length])

theorem kernel_byte {o : Nat} (ho : o < kernel.length) :
    fileBytes file (sectorSize + o) = kernel.getD o 0 := by
  have hfront : (headerBytes kernel initrd ++ List.replicate 456 0).length = sectorSize := by
    rw [List.length_append, List.length_replicate, headerBytes_length]
    rfl
  rw [fileBytes, h.file, List.append_assoc, List.append_assoc,
    List.getD_append_right _ _ _ _ (by rw [hfront]; exact Nat.le_add_right ..), hfront,
    Nat.add_sub_cancel_left, List.getD_append _ _ _ _ ho]

theorem initrd_byte {o : Nat} :
    fileBytes file (initrdStart kernel + o) = initrd.getD o 0 := by
  have hlen := h.length
  have hfile := h.file
  generalize headerBytes kernel initrd ++ List.replicate 456 0 ++ kernel ++
    List.replicate (initrdStart kernel - (sectorSize + kernel.length)) 0 = front at hfile
  have hfront : front.length = initrdStart kernel := by
    have := congrArg List.length hfile
    rw [List.length_append] at this
    omega
  rw [fileBytes, hfile, List.getD_append_right _ _ _ _ (by omega), hfront,
    Nat.add_sub_cancel_left]

end Layout

end Layout

section RoundTrip

variable (h : Layout kernel initrd file)
include h

/-- The header as the firmware reads it. -/
theorem Layout.readImageHeader (hread : Serves read (fileBytes file) file.length) :
    readImageHeader read = some ⟨imageMagic, imageVersion, headerSize, sectorSize, kernel.length,
      initrdStart kernel, initrd.length, 0⟩ := by
  have hlen := h.length
  have hge := @initrdStart_ge kernel
  have hsector : sectorSize = 512 := rfl
  rw [Firmware.readImageHeader, diskReadBytes_eq hread (by decide) fun i hi => by
    simp only [imageHeaderSize] at hi
    omega, Option.map_some]
  generalize hb : (fun i => ((List.range imageHeaderSize).map fun i => fileBytes file (0 + i)).getD
    i 0) = b
  have hbyte : ∀ i, i < 56 → b i = (headerBytes kernel initrd).getD i 0 := by
    intro i hi
    rw [← hb, ← h.header_byte hi]
    simp [imageHeaderSize, hi]
  -- a field of eight bytes behind the fields `pre`
  have hfield : ∀ (pre post : List (Nat × Nat)) (n off : Nat),
      headerFields kernel initrd = pre ++ (8, n) :: post → (pre.map Prod.fst).sum = off →
      off + 8 ≤ 56 → le64 b off = n := by
    rintro pre post n off hsplit rfl hoff
    have hn : n < 256 ^ 8 := h.fields (8, n) (by rw [hsplit]; simp)
    apply le64_of_bytes hn
    intro i hi
    rw [hbyte _ (by omega), headerBytes, hsplit, packed_getD pre post 8 n hi]
  have hword : ∀ (pre post : List (Nat × Nat)) (n off : Nat),
      headerFields kernel initrd = pre ++ (4, n) :: post → (pre.map Prod.fst).sum = off →
      off + 4 ≤ 56 → le32 b off = n := by
    rintro pre post n off hsplit rfl hoff
    have hn : n < 256 ^ 4 := h.fields (4, n) (by rw [hsplit]; simp)
    have hpart : ∀ i, i < 4 → b ((pre.map Prod.fst).sum + i) = byteOf n i := fun i hi => by
      rw [hbyte _ (by omega), headerBytes, hsplit, packed_getD pre post 4 n hi]
    exact le32_of_bytes hn (hpart 0 (by decide)) (hpart 1 (by decide)) (hpart 2 (by decide))
      (hpart 3 (by decide))
  rw [ImageHeader.ofBytes,
    hfield [] _ imageMagic 0 rfl rfl (by decide),
    hword [(8, imageMagic)] _ imageVersion 8 rfl rfl (by decide),
    hword [(8, imageMagic), (4, imageVersion)] _ headerSize 12 rfl rfl (by decide),
    hfield [(8, imageMagic), (4, imageVersion), (4, headerSize)] _ sectorSize 16 rfl rfl
      (by decide),
    hfield [(8, imageMagic), (4, imageVersion), (4, headerSize), (8, sectorSize)] _
      kernel.length 24 rfl rfl (by decide),
    hfield [(8, imageMagic), (4, imageVersion), (4, headerSize), (8, sectorSize),
      (8, kernel.length)] _ (initrdStart kernel) 32 rfl rfl (by decide),
    hfield [(8, imageMagic), (4, imageVersion), (4, headerSize), (8, sectorSize),
      (8, kernel.length), (8, initrdStart kernel)] _ initrd.length 40 rfl rfl (by decide),
    hfield [(8, imageMagic), (4, imageVersion), (4, headerSize), (8, sectorSize),
      (8, kernel.length), (8, initrdStart kernel), (8, initrd.length)] _ 0 48 rfl rfl (by decide)]

/-- Any range of one of the two inputs is read back. -/
theorem Layout.read_part (hread : Serves read (fileBytes file) file.length) {part : List UInt8}
    {start : Nat} (hend : start + part.length ≤ file.length)
    (hpart : ∀ o, o < part.length → fileBytes file (start + o) = part.getD o 0) {o n : Nat}
    (hn : o + n ≤ part.length) :
    diskReadBytes read (start + o) n = some ((part.drop o).take n) := by
  have hshort := h.short
  rw [diskReadBytes_eq hread (by omega) fun i hi => by omega]
  congr 1
  apply List.ext_getElem
  · simp
    omega
  · intro i hi hi'
    simp only [List.length_map, List.length_range] at hi
    have hget := hpart (o + i) (by omega)
    rw [← Nat.add_assoc, List.getD_eq_getElem _ _ (by omega)] at hget
    simp [hget]

end RoundTrip

/-- What `build_image` has packed is what the firmware finds on a disk with the sectors of
the file: the header is accepted and locates the kernel and the initrd, each range of them
is read back, and the three regions lie apart. -/
theorem bootImage_roundTrip (hbuild : buildImage kernel initrd = .ok file)
    (hread : Serves read (fileBytes file) file.length) :
    ∃ hdr, readImageHeader read = some hdr ∧ hdr.Accepted ∧
      hdr.kernelSize = kernel.length ∧ hdr.initrdSize = initrd.length ∧
      (∀ o n, o + n ≤ kernel.length →
        diskReadBytes read (hdr.kernelOffset + o) n = some ((kernel.drop o).take n)) ∧
      (∀ o n, o + n ≤ initrd.length →
        diskReadBytes read (hdr.initrdOffset + o) n = some ((initrd.drop o).take n)) ∧
      imageHeaderSize ≤ hdr.kernelOffset ∧
      hdr.kernelOffset + hdr.kernelSize ≤ hdr.initrdOffset := by
  have h := buildImage_layout hbuild
  have hlen := h.length
  have hge := @initrdStart_ge kernel
  refine ⟨_, h.readImageHeader hread, ⟨rfl, rfl⟩, rfl, rfl, fun o n hn => ?_, fun o n hn => ?_,
    (by decide : imageHeaderSize ≤ sectorSize), hge⟩
  · exact h.read_part hread (by omega) (fun o ho => h.kernel_byte ho) hn
  · exact h.read_part hread (by omega) (fun o _ => h.initrd_byte) hn

/-- An image of a kernel of three bytes and an empty initrd. -/
theorem bootImage_roundTrip_empty :
    ∃ hdr, readImageHeader (fun s => some fun j =>
        ((buildImage [1, 2, 3] []).toOption.getD []).getD (512 * s + j) 0) = some hdr ∧
      hdr.kernelSize = 3 ∧ hdr.initrdSize = 0 := by
  have hok : (buildImage [1, 2, 3] []).toOption.isSome := by decide +kernel
  cases hbuild : buildImage [1, 2, 3] [] with
  | error e =>
      rw [hbuild] at hok
      cases hok
  | ok file =>
      obtain ⟨hdr, hhdr, _, hkernel, hinitrd, _⟩ := @bootImage_roundTrip [1, 2, 3] [] file
        (fun s => some fun j => file.getD (512 * s + j) 0) hbuild
        fun s _ => ⟨_, rfl, fun _ _ => rfl⟩
      exact ⟨hdr, hhdr, hkernel, hinitrd⟩

end Firmware

end OsAgentLab
