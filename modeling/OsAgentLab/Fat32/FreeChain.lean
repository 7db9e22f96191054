/-
`fat32_free_chain` on any allocation table, cyclic or not: the loop clears the link it
leaves, so it ends, and it has cleared the entries it could reach.
-/
import OsAgentLab.Fat32.TableBytes
import OsAgentLab.Orbit

namespace OsAgentLab

namespace Vol

/-- The clusters that `fat32_free_chain` goes through. -/
def ChainCluster (v : Vol) (c : Nat) : Prop :=
  fat32MinCluster ≤ c ∧ c ≤ u32 (v.fs.clusterCount + 1) ∧ c < fat32Eoc

instance (v : Vol) (c : Nat) : Decidable (v.ChainCluster c) :=
  inferInstanceAs (Decidable (_ ∧ _ ∧ _))

end Vol

/-- `v'` is `v` with the entries of the clusters in `S` set to 0 in every copy. -/
structure Cleared (v : Vol) (S : Nat → Prop) (v' : Vol) : Prop where
  fs : v'.fs = v.fs
  served : v'.disk.served = v.disk.served
  zero : ∀ lba off, (∃ c, S c ∧ v.InEntry c lba off) → v'.disk.sectors lba off = 0
  keep : ∀ lba off, (¬ ∃ c, S c ∧ v.InEntry c lba off) →
    v'.disk.sectors lba off = v.disk.sectors lba off

variable {v v' : Vol} {S T : Nat → Prop} {c d : Nat}

theorem Cleared.refl (v : Vol) : Cleared v (fun _ => False) v :=
  ⟨rfl, rfl, fun _ _ ⟨_, h, _⟩ => h.elim, fun _ _ _ => rfl⟩

theorem Cleared.congr (h : Cleared v S v') (hST : ∀ x, T x ↔ S x) : Cleared v T v' := by
  have heq : T = S := funext fun x => propext (hST x)
  exact heq ▸ h

theorem Cleared.fatAddr (h : Cleared v S v') (k j : Nat) : v'.fatAddr k j = v.fatAddr k j := by
  rw [Vol.fatAddr, Vol.fatAddr, h.fs]

theorem putFatValue_zero (sector : Sector) (off : Nat) :
    putFatValue sector off 0 = overlay sector off 4 fun _ => 0 := by
  funext i
  by_cases hi : off ≤ i ∧ i < off + 4
  · rw [putFatValue, overlay_of_mem hi, overlay_of_mem hi]
    have hzero : ∀ n, byteOf 0 n = 0 := fun n => by rw [byteOf, Nat.zero_div]; rfl
    rw [hzero, hzero]
    split <;> rfl
  · rw [putFatValue, overlay_of_not_mem hi, overlay_of_not_mem hi]

/-- Entries of different clusters have no byte in common. -/
theorem FatCopies.entry_apart (fc : FatCopies v) (hc : c ≤ v.fs.clusterCount + 1)
    (hd : d ≤ v.fs.clusterCount + 1) {lba off : Nat} (hin : v.InEntry c lba off)
    (hin' : v.InEntry d lba off) : c = d := by
  obtain ⟨k, hk, hlba, hlow, hhigh⟩ := hin
  obtain ⟨k', hk', hlba', hlow', hhigh'⟩ := hin'
  have hfits := fc.fits
  obtain ⟨-, hidx⟩ := fc.apart k hk (c * 4 / 512) (by omega) k' hk' (d * 4 / 512) (by omega)
    (hlba.symm.trans hlba')
  omega

/-- Clearing one more entry. -/
theorem Cleared.step (h : Cleared v S v') (c : Nat) :
    Cleared v (fun x => S x ∨ x = c) (v'.withCopies c 0 v'.fs.numFats) := by
  have hentry : ∀ lba off, v'.InEntry c lba off ↔ v.InEntry c lba off := by
    intro lba off
    rw [Vol.InEntry, Vol.InEntry, h.fs]
    simp only [h.fatAddr]
  refine ⟨h.fs, h.served, fun lba off hin => ?_, fun lba off hout => ?_⟩
  · by_cases hc : v.InEntry c lba off
    · rw [Vol.withCopies_in ((hentry lba off).mpr hc), putFatValue_zero]
      obtain ⟨-, -, -, hoff⟩ := hc
      exact overlay_of_mem hoff
    · rw [Vol.withCopies_out fun hin' => hc ((hentry lba off).mp hin')]
      obtain ⟨d, hd, hind⟩ := hin
      rcases hd with hd | rfl
      · exact h.zero lba off ⟨d, hd, hind⟩
      · exact absurd hind hc
  · have hc : ¬ v.InEntry c lba off := fun hin => hout ⟨c, Or.inr rfl, hin⟩
    rw [Vol.withCopies_out fun hin' => hc ((hentry lba off).mp hin')]
    exact h.keep lba off fun ⟨d, hd, hin⟩ => hout ⟨d, Or.inl hd, hin⟩

section Read

variable (fc : FatCopies v)

include fc

/-- The bytes of the entry of `c` in the first copy. -/
theorem FatCopies.in_first (i : Nat) (hi : i < 4) :
    v.InEntry c (v.fatAddr 0 (c * 4 / 512)) (c * 4 % 512 + i) :=
  ⟨0, fc.copies, rfl, by omega, by omega⟩

/-- A cleared entry reads as 0. -/
theorem Cleared.link_in (h : Cleared v S v') (hc : S c) : v'.fatLink c = 0 := by
  have hbyte : ∀ i < 4, v'.disk.sectors (v.fatAddr 0 (c * 4 / 512)) (c * 4 % 512 + i) = 0 :=
    fun i hi => h.zero _ _ ⟨c, hc, fc.in_first i hi⟩
  have h0 := hbyte 0 (by decide)
  rw [Nat.add_zero] at h0
  rw [Vol.fatLink, Vol.copyEntry, h.fatAddr, le32, h0, hbyte 1 (by decide), hbyte 2 (by decide),
    hbyte 3 (by decide)]
  rfl

/-- The other entries read as before. -/
theorem Cleared.link_out (h : Cleared v S v') (hS : ∀ x, S x → x ≤ v.fs.clusterCount + 1)
    (hle : c ≤ v.fs.clusterCount + 1) (hc : ¬ S c) : v'.fatLink c = v.fatLink c := by
  rw [Vol.fatLink, Vol.fatLink, Vol.copyEntry, Vol.copyEntry, h.fatAddr]
  refine congrArg (· % 268435456) (le32_congr fun i hi => h.keep _ _ ?_)
  rintro ⟨d, hd, hin⟩
  have heq : c = d := fc.entry_apart hle (hS d hd) (fc.in_first i hi) hin
  exact hc (heq ▸ hd)

end Read

theorem Vol.ChainCluster.le (h : v.ChainCluster c) : c ≤ v.fs.clusterCount + 1 :=
  Nat.le_trans h.2.1 (Nat.mod_le _ _)

theorem Vol.ChainCluster.lt (h : v.ChainCluster c) : c * 4 < 4294967296 := by
  have hlt := h.2.2
  unfold fat32Eoc at hlt
  omega

theorem Cleared.chainCluster (h : Cleared v S v') : v'.ChainCluster c ↔ v.ChainCluster c := by
  rw [Vol.ChainCluster, Vol.ChainCluster, h.fs]

/-- One pass of the loop. -/
theorem freeChainLoop_pass (fc : FatCopies v) (h : Cleared v S v') (hc : v.ChainCluster c)
    (fuel : Nat) : fat32FreeChainLoop (fuel + 1) c v' =
      fat32FreeChainLoop fuel (v'.fatLink c) (v'.withCopies c 0 v'.fs.numFats) := by
  have hfits := fc.fits
  have hle := hc.le
  have hserved : ∀ k < v'.fs.numFats, v'.disk.served (v'.fatAddr k (c * 4 / 512)) = true := by
    intro k hk
    rw [h.fs] at hk
    rw [h.served, h.fatAddr]
    exact fc.served k hk _ (by omega)
  have hbytes : v'.fs.bytesPerSector = 512 := h.fs.symm ▸ fc.bytes
  have hcopies : 0 < v'.fs.numFats := h.fs.symm ▸ fc.copies
  have hread := fat32ReadFatEntry_bytes hbytes hc.lt (hserved 0 hcopies)
  have hwrite : fat32WriteFatEntry c 0 v' = (.ok (), v'.withCopies c 0 v'.fs.numFats) :=
    fat32WriteFatEntry_bytes hbytes hc.lt hserved
  have hcond := h.chainCluster.mpr hc
  rw [Vol.ChainCluster] at hcond
  rw [fat32FreeChainLoop, Prog.bind_ok (show getFs v' = (.ok v'.fs, v') from rfl),
    if_pos hcond, Prog.bind_ok (Prog.orElse_ok hread _), Prog.bind_ok (Prog.orElse_ok hwrite _)]
  rfl

/-- Outside the clusters of the chain the loop is over. -/
theorem freeChainLoop_end (h : Cleared v S v') (hc : ¬ v.ChainCluster c) (fuel : Nat) :
    fat32FreeChainLoop (fuel + 1) c v' = (.ok (), v') := by
  rw [fat32FreeChainLoop, Prog.bind_ok (show getFs v' = (.ok v'.fs, v') from rfl)]
  exact congrFun (if_neg fun hcond => hc (h.chainCluster.mp hcond)) v'

/-- The passes over clusters that are all new. -/
theorem freeChainLoop_trail (fc : FatCopies v) {rest : List Nat} (h : Cleared v S v')
    (htrail : Trail v.fatLink c rest) (hnodup : (c :: rest).Nodup)
    (hinside : ∀ x ∈ c :: rest, v.ChainCluster x ∧ ¬ S x) (hS : ∀ x, S x → v.ChainCluster x)
    (fuel : Nat) :
    ∃ v'', Cleared v (fun x => S x ∨ x ∈ c :: rest) v'' ∧
      fat32FreeChainLoop (fuel + rest.length + 1) c v' =
        fat32FreeChainLoop fuel (v.fatLink (rest.getLastD c)) v'' := by
  induction rest generalizing c S v' with
  | nil =>
      obtain ⟨hc, hnew⟩ := hinside c List.mem_cons_self
      refine ⟨_, (h.step c).congr fun x => ?_, ?_⟩
      · rw [List.mem_singleton]
      · rw [List.length_nil, Nat.add_zero, freeChainLoop_pass fc h hc,
          h.link_out fc (fun x hx => (hS x hx).le) hc.le hnew]
        rfl
  | cons b rest ih =>
      obtain ⟨hc, hnew⟩ := hinside c List.mem_cons_self
      obtain ⟨hnext, htrail⟩ := htrail
      obtain ⟨hout, hnodup⟩ := List.nodup_cons.mp hnodup
      obtain ⟨v'', hcleared, hrun⟩ := ih (h.step c) htrail hnodup
        (fun x hx => ⟨(hinside x (List.mem_cons_of_mem c hx)).1, fun hor => hor.elim
          (hinside x (List.mem_cons_of_mem c hx)).2 fun heq => hout (heq ▸ hx)⟩)
        (fun x hx => hx.elim (hS x) fun heq => heq ▸ hc)
      refine ⟨v'', hcleared.congr fun x => ?_, ?_⟩
      · rw [List.mem_cons (b := c), or_assoc]
      · rw [List.length_cons, ← Nat.add_assoc, freeChainLoop_pass fc h hc,
          h.link_out fc (fun x hx => (hS x hx).le) hc.le hnew, hnext, hrun, List.getLastD_cons]

/-- `fat32_free_chain` returns 0 and clears exactly the entries of the clusters it can
reach, in every copy. -/
theorem fat32FreeChain_clears (fc : FatCopies v) (start : Nat) :
    ∃ v', fat32FreeChain start v = (.ok (), v') ∧
      Cleared v (Visits v.fatLink v.ChainCluster start) v' := by
  rw [fat32FreeChain]
  by_cases hstart : v.ChainCluster start
  · have hall : ∀ x, v.ChainCluster x → x ∈ List.range' 2 (fat32Eoc - 2) := fun x hx => by
      obtain ⟨hlow, -, hhigh⟩ := hx
      unfold fat32MinCluster at hlow
      exact List.mem_range'_1.mpr ⟨hlow, by omega⟩
    obtain ⟨rest, horbit⟩ : ∃ rest, Orbit v.fatLink v.ChainCluster start rest :=
      orbit_exists _ hall hstart
    have hlen : (start :: rest).length ≤ fat32Eoc - 2 := by
      have hsub : start :: rest ⊆ List.range' 2 (fat32Eoc - 2) := fun x hx =>
        hall x (horbit.inside x hx)
      have hle := (horbit.nodup.subperm hsub).length_le
      rwa [List.length_range'] at hle
    obtain ⟨fuel, hfuel⟩ : ∃ fuel, fat32Eoc + 1 = fuel + 2 + rest.length + 1 := by
      rw [List.length_cons] at hlen
      unfold fat32Eoc at hlen ⊢
      exact ⟨268435446 - rest.length, by omega⟩
    obtain ⟨v'', hcleared, hrun⟩ := freeChainLoop_trail fc (Cleared.refl v) horbit.trail
      horbit.nodup (fun x hx => ⟨horbit.inside x hx, id⟩) (fun _ hx => hx.elim) (fuel + 2)
    have hvisits : ∀ x, Visits v.fatLink v.ChainCluster start x ↔ False ∨ x ∈ start :: rest :=
      fun x => by rw [false_or, horbit.visits_iff]
    rw [hfuel, hrun]
    by_cases hback : v.ChainCluster (v.fatLink (rest.getLastD start))
    · -- the orbit comes back to a cleared entry, which leads nowhere
      have hmem := horbit.back hback
      refine ⟨_, ?_, (hcleared.step (v.fatLink (rest.getLastD start))).congr fun x => ?_⟩
      · rw [freeChainLoop_pass fc hcleared hback, hcleared.link_in fc (Or.inr hmem)]
        refine freeChainLoop_end (hcleared.step _) (fun h => ?_) fuel
        exact absurd h.1 (by decide)
      · rw [hvisits x]
        exact ⟨Or.inl, fun hx => hx.elim id fun heq => Or.inr (heq ▸ hmem)⟩
    · exact ⟨v'', freeChainLoop_end hcleared hback (fuel + 1), hcleared.congr hvisits⟩
  · refine ⟨v, freeChainLoop_end (Cleared.refl v) hstart _, (Cleared.refl v).congr fun x => ?_⟩
    refine ⟨fun hx => ?_, False.elim⟩
    induction hx with
    | here h => exact hstart h
    | onward _ _ ih => exact ih

/-- A volume with more clusters than there are values below `FAT32_EOC`; no entry is 0. -/
def hugeVolume : Vol where
  disk := { sectors := fun _ _ => 255, served := fun _ => true }
  fs :=
    { partLba := 0
      fatLba := 32
      dataLba := 2097184
      reservedSectors := 32
      totalSectors := 270532640
      sectorsPerFat := 2097152
      numFats := 1
      clusterCount := 268435448
      sectorsPerCluster := 1
      bytesPerSector := 512
      rootCluster := 2
      allocHint := 2 }

theorem hugeVolume_copies : FatCopies hugeVolume where
  bytes := rfl
  copies := by decide
  fits := by decide
  apart k hk j hj k' hk' j' hj' heq := by
    simp only [Vol.fatAddr, hugeVolume, u32] at *
    omega
  served _ _ _ _ := rfl

theorem fat32FreeChain_clears_huge : ∃ v', fat32FreeChain 5 hugeVolume = (.ok (), v') ∧
    Cleared hugeVolume (Visits hugeVolume.fatLink hugeVolume.ChainCluster 5) v' :=
  fat32FreeChain_clears hugeVolume_copies 5

/-- The cluster with the number `FAT32_EOC` exists there, but its chain is not freed. -/
theorem fat32FreeChain_endMark : ¬ ∀ v start, FatCopies v →
    ∃ v', fat32FreeChain start v = (.ok (), v') ∧ Cleared v
      (Visits v.fatLink (fun c => 2 ≤ c ∧ c ≤ v.fs.clusterCount + 1) start) v' := by
  intro hall
  obtain ⟨v', hrun, hcleared⟩ := hall hugeVolume fat32Eoc hugeVolume_copies
  have hkept : fat32FreeChain fat32Eoc hugeVolume = (.ok (), hugeVolume) :=
    freeChainLoop_end (Cleared.refl hugeVolume) (fun h => Nat.lt_irrefl _ h.2.2) _
  obtain rfl : hugeVolume = v' := congrArg Prod.snd (hkept.symm.trans hrun)
  have hbyte := hcleared.zero (hugeVolume.fatAddr 0 (fat32Eoc * 4 / 512)) (fat32Eoc * 4 % 512)
    ⟨fat32Eoc, Visits.here (by decide), 0, by decide, rfl, Nat.le_refl _, by omega⟩
  exact absurd hbyte (by decide)

end OsAgentLab
