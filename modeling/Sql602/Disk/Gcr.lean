import Sql602.Library.Run
import Sql602.Library.Digits

namespace Sql602.Disk

open Digits

/-! The global counter of replicable updates. The six bytes are stored most
significant first; `incr4` and `incr5` are the two carry chains of `ffa.cpp`,
entered at byte 4 and at byte 5. -/

structure Zcr where
  b0 : UInt8
  b1 : UInt8
  b2 : UInt8
  b3 : UInt8
  b4 : UInt8
  b5 : UInt8
  deriving DecidableEq

namespace Zcr

def incr4 (zcr : Zcr) : Zcr :=
  let zcr := { zcr with b4 := zcr.b4 + 1 }
  if zcr.b4 ≠ 0 then zcr else
  let zcr := { zcr with b3 := zcr.b3 + 1 }
  if zcr.b3 ≠ 0 then zcr else
  let zcr := { zcr with b2 := zcr.b2 + 1 }
  if zcr.b2 ≠ 0 then zcr else
  let zcr := { zcr with b1 := zcr.b1 + 1 }
  if zcr.b1 ≠ 0 then zcr else
  { zcr with b0 := zcr.b0 + 1 }

def incr5 (zcr : Zcr) : Zcr :=
  let zcr := { zcr with b5 := zcr.b5 + 1 }
  if zcr.b5 ≠ 0 then zcr else zcr.incr4

def high (zcr : Zcr) : List UInt8 := [zcr.b4, zcr.b3, zcr.b2, zcr.b1, zcr.b0]

def toNat (zcr : Zcr) : Nat := value (zcr.b5 :: zcr.high)

theorem toNat_eq (zcr : Zcr) : zcr.toNat = zcr.b5.toNat + 256 * value zcr.high :=
  value_cons _ _

theorem high_eq_div (zcr : Zcr) : value zcr.high = zcr.toNat / 256 := by
  have hbyte := zcr.b5.toNat_lt
  rw [toNat_eq]
  omega

theorem high_incr4 (zcr : Zcr) : zcr.incr4.high = succ zcr.high := by
  by_cases h4 : zcr.b4 + 1 = 0
  · by_cases h3 : zcr.b3 + 1 = 0
    · by_cases h2 : zcr.b2 + 1 = 0
      · by_cases h1 : zcr.b1 + 1 = 0
        · by_cases h0 : zcr.b0 + 1 = 0 <;> simp [incr4, high, succ, h4, h3, h2, h1, h0]
        · simp [incr4, high, succ, h4, h3, h2, h1]
      · simp [incr4, high, succ, h4, h3, h2]
    · simp [incr4, high, succ, h4, h3]
  · simp [incr4, high, succ, h4]

@[simp] theorem b5_incr4 (zcr : Zcr) : zcr.incr4.b5 = zcr.b5 := by
  simp only [incr4]
  repeat' split
  all_goals rfl

theorem digits_incr5 (zcr : Zcr) :
    zcr.incr5.b5 :: zcr.incr5.high = succ (zcr.b5 :: zcr.high) := by
  by_cases h5 : zcr.b5 + 1 = 0
  · have hhigh := high_incr4 { zcr with b5 := zcr.b5 + 1 }
    have hincr : zcr.incr5 = ({ zcr with b5 := zcr.b5 + 1 } : Zcr).incr4 := by
      simp [incr5, h5]
    rw [hincr, hhigh, b5_incr4]
    simp [succ, h5, high]
  · simp [incr5, succ, h5, high]

theorem toNat_incr4 {zcr : Zcr} (hroom : zcr.toNat + 256 < 2 ^ 48) :
    zcr.incr4.toNat = zcr.toNat + 256 := by
  have hhigh : value zcr.high + 1 < 256 ^ zcr.high.length := by
    rw [toNat_eq] at hroom
    simp only [high, List.length_cons, List.length_nil] at hroom ⊢
    omega
  rw [toNat_eq, toNat_eq, high_incr4, value_succ hhigh, b5_incr4]
  omega

theorem toNat_incr5 {zcr : Zcr} (hroom : zcr.toNat + 1 < 2 ^ 48) :
    zcr.incr5.toNat = zcr.toNat + 1 := by
  have hdigits : value (zcr.b5 :: zcr.high) + 1 < 256 ^ (zcr.b5 :: zcr.high).length := by
    simpa [toNat, high] using hroom
  rw [toNat, digits_incr5, value_succ hdigits, toNat]

end Zcr

/-! The fields of the database header that decide about the counter, the copy
of the header in memory, its copy on the disc, and the values handed out so
far, the last one first. -/

structure Header where
  sezamOpen : Bool
  bpoolCount : Nat
  gcr : Zcr
  preallocGcr : Nat
  deriving DecidableEq

structure Server where
  header : Header
  disc : Header
  issued : List Zcr
  deriving DecidableEq

namespace Server

def writeHeader (server : Server) : Server :=
  { server with disc := server.header }

def reserveGcr (server : Server) : Server :=
  let store := server.header.gcr
  let server := { server with
    header := { server.header with gcr := server.header.gcr.incr4 } }
  let server := server.writeHeader
  { server with header := { server.header with preallocGcr := 256, gcr := store } }

def takeGcr (server : Server) : Server :=
  let gcr := server.header.gcr.incr5
  { server with
    header := { server.header with gcr, preallocGcr := server.header.preallocGcr - 1 }
    issued := gcr :: server.issued }

def writeGcr (server : Server) : Server :=
  if server.header.preallocGcr = 0 then server.reserveGcr.takeGcr else server.takeGcr

def updateGcr (server : Server) (zcrVal : Zcr) : Server :=
  writeHeader { server with
    header := { server.header with
      gcr := ({ zcrVal with b5 := 0 } : Zcr).incr4, preallocGcr := 0 } }

def addNewPool (server : Server) : Server :=
  writeHeader { server with
    header := { server.header with bpoolCount := server.header.bpoolCount + 1 } }

def discOpen (server : Server) : Server :=
  let header := server.disc
  let header := if header.sezamOpen then { header with preallocGcr := 0 } else header
  writeHeader { server with header := { header with sezamOpen := true } }

def discClose (server : Server) : Server :=
  writeHeader { server with header := { server.header with sezamOpen := false } }

end Server

/-- A crash loses the header in memory, so that the next start reads the one on
the disc; `restart` stops the server properly before it starts again. -/
inductive GcrOp where
  | writeGcr
  | updateGcr (zcrVal : Zcr)
  | addNewPool
  | crash
  | restart
  deriving DecidableEq

def gcrStep (server : Server) : GcrOp → Server
  | .writeGcr => server.writeGcr
  | .updateGcr zcrVal => server.updateGcr zcrVal
  | .addNewPool => server.addNewPool
  | .crash => server.discOpen
  | .restart => server.discClose.discOpen

def Server.Increasing (server : Server) : Prop :=
  server.issued.Pairwise fun later earlier => earlier.toNat < later.toNat

instance (server : Server) : Decidable server.Increasing :=
  inferInstanceAs (Decidable (List.Pairwise _ _))

/-! The counter in memory and the one on the disc. A value is handed out only
after the counter in memory has reached it, so that the next value is larger as
long as the counter that a start reads is not behind the one that was lost. -/

/-- What a step needs: the counter does not wrap round, `update_gcr` gets a
value that is not below the counter, and the copy of the header that survives a
crash is not behind. -/
def GcrOk (server : Server) : GcrOp → Prop
  | .writeGcr => server.header.gcr.toNat + 1 < 2 ^ 48
  | .updateGcr zcrVal =>
      server.header.gcr.toNat / 256 ≤ zcrVal.toNat / 256 ∧
        zcrVal.toNat + 256 < 2 ^ 48
  | .crash => server.header.gcr.toNat ≤ server.disc.gcr.toNat
  | _ => True

instance (server : Server) : (op : GcrOp) → Decidable (GcrOk server op)
  | .writeGcr => inferInstanceAs (Decidable (_ < _))
  | .updateGcr _ => inferInstanceAs (Decidable (_ ∧ _))
  | .crash => inferInstanceAs (Decidable (_ ≤ _))
  | .addNewPool => isTrue trivial
  | .restart => isTrue trivial

structure Server.Counted (server : Server) : Prop where
  increasing : server.Increasing
  reached : ∀ gcr ∈ server.issued, gcr.toNat ≤ server.header.gcr.toNat

/-- The values stay ordered when the counter only moves forwards. -/
theorem Server.Counted.forward {server next : Server} (hcounted : server.Counted)
    (hissued : next.issued = server.issued)
    (hgcr : server.header.gcr.toNat ≤ next.header.gcr.toNat) : next.Counted where
  increasing := by
    rw [Increasing, hissued]
    exact hcounted.increasing
  reached := by
    intro gcr hmem
    rw [hissued] at hmem
    exact (hcounted.reached gcr hmem).trans hgcr

theorem Server.Counted.takeGcr {server : Server} (hcounted : server.Counted)
    (hroom : server.header.gcr.toNat + 1 < 2 ^ 48) : server.takeGcr.Counted where
  increasing := by
    refine List.pairwise_cons.mpr ⟨fun earlier hmem => ?_, hcounted.increasing⟩
    rw [Zcr.toNat_incr5 hroom]
    exact Nat.lt_succ_of_le (hcounted.reached earlier hmem)
  reached := by
    intro gcr hmem
    change gcr.toNat ≤ server.header.gcr.incr5.toNat
    rcases List.mem_cons.mp hmem with rfl | hmem
    · exact le_refl _
    · rw [Zcr.toNat_incr5 hroom]
      exact (hcounted.reached gcr hmem).trans (Nat.le_succ _)

@[simp] theorem Server.gcr_reserveGcr (server : Server) :
    server.reserveGcr.header.gcr = server.header.gcr := rfl

@[simp] theorem Server.issued_reserveGcr (server : Server) :
    server.reserveGcr.issued = server.issued := rfl

theorem Server.gcr_discOpen (server : Server) :
    server.discOpen.header.gcr = server.disc.gcr := by
  simp only [discOpen, writeHeader]
  split <;> rfl

theorem Server.issued_discOpen (server : Server) :
    server.discOpen.issued = server.issued := rfl

theorem Zcr.toNat_updated {zcrVal : Zcr} (hroom : zcrVal.toNat + 256 < 2 ^ 48) :
    ({ zcrVal with b5 := 0 } : Zcr).incr4.toNat = 256 * (zcrVal.toNat / 256 + 1) := by
  have hclear : ({ zcrVal with b5 := 0 } : Zcr).toNat = 256 * (zcrVal.toNat / 256) := by
    rw [← high_eq_div]
    simp [toNat, high]
  rw [toNat_incr4 (by omega), hclear]
  omega

theorem Server.Counted.step {server : Server} {op : GcrOp} (hcounted : server.Counted)
    (hok : GcrOk server op) : (gcrStep server op).Counted := by
  cases op with
  | writeGcr =>
      simp only [gcrStep, writeGcr]
      split
      · have hreserved : server.reserveGcr.Counted := hcounted.forward rfl (le_refl _)
        exact hreserved.takeGcr hok
      · exact hcounted.takeGcr hok
  | updateGcr zcrVal =>
      obtain ⟨hfirst, hroom⟩ := hok
      have hgcr : (server.updateGcr zcrVal).header.gcr.toNat =
          256 * (zcrVal.toNat / 256 + 1) := Zcr.toNat_updated hroom
      refine hcounted.forward rfl ?_
      simp only [gcrStep, hgcr]
      omega
  | addNewPool => exact hcounted.forward rfl (le_refl _)
  | crash =>
      refine hcounted.forward server.issued_discOpen ?_
      rw [gcrStep, gcr_discOpen]
      exact hok
  | restart =>
      refine hcounted.forward server.discClose.issued_discOpen ?_
      rw [gcrStep, gcr_discOpen]
      exact le_refl _

theorem writeGcr_increasing {header : Header} {ops : List GcrOp}
    (hmeets : Run.Meets gcrStep GcrOk ⟨header, header, []⟩ ops) :
    Run.Always gcrStep Server.Increasing ⟨header, header, []⟩ ops :=
  Run.always_of_invariant Server.Counted (fun _ hcounted => hcounted.increasing)
    (fun _ _ hcounted hok => hcounted.step hok)
    ⟨List.Pairwise.nil, by simp⟩ hmeets

def newHeader : Header := ⟨true, 1, ⟨0, 0, 0, 0, 0, 0⟩, 0⟩

theorem writeGcr_increasing_newHeader :
    Run.Always gcrStep Server.Increasing ⟨newHeader, newHeader, []⟩
      [.writeGcr, .crash, .writeGcr, .updateGcr ⟨0, 0, 0, 0, 7, 0⟩, .addNewPool, .crash,
        .writeGcr, .restart, .writeGcr] :=
  writeGcr_increasing (by decide)

/-- Adding a pool between two values writes the header without the reserve. -/
theorem writeGcr_reissued :
    ¬ Run.Always gcrStep Server.Increasing ⟨newHeader, newHeader, []⟩
      [.writeGcr, .addNewPool, .writeGcr, .crash, .writeGcr] := by
  decide

end Sql602.Disk
