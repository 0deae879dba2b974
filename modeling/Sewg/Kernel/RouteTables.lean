import Sewg.Go.AllowedIPs
import Sewg.Kernel.AllowedTable

/-! The tables of allowed IPs, in Go and in the kernel, next to each other. -/

namespace Sewg
open CString (Bytes)
open Routes Words Loop

variable {P : Type}

/-! ## The order of insertions -/

namespace Go

/-- The two calls write the same prefix. -/
def InsertCall.SamePrefix (c d : InsertCall P) : Prop :=
  c.ip.length = d.ip.length ∧ c.cidr = d.cidr ∧ Agree bitAt c.cidr c.ip d.ip

theorem InsertCall.write_comm {c d : InsertCall P} (h : c.SamePrefix d → c.peer = d.peer)
    (size : Nat) (table : Table Bytes P) :
    d.write size (c.write size table) = c.write size (d.write size table) := by
  unfold InsertCall.write
  by_cases hc : c.ip.length = size <;> by_cases hd : d.ip.length = size
  · rw [if_pos hc, if_pos hd, if_pos hd, if_pos hc]
    exact Table.insert_comm fun hcidr hagree => h ⟨hc.trans hd.symm, hcidr.symm, hagree⟩
  all_goals simp [hc, hd]

section
variable {calls calls' : List (InsertCall P)} (h : calls.Perm calls')
  (apart : ∀ c ∈ calls, ∀ d ∈ calls, c.SamePrefix d → c.peer = d.peer)
include h apart

theorem routes_perm (size : Nat) (table : Table Bytes P) :
    calls.foldl (InsertCall.write size) table = calls'.foldl (InsertCall.write size) table :=
  h.foldl_eq' (fun c hc d hd table => InsertCall.write_comm (apart c hc d hd) size table) _

/-- No prefix is given to two peers, so the order in which they are inserted does not show. -/
theorem insertions_commute (e : Endian) :
    ∃ table table' : AllowedIPs P, AllowedIPs.Reset.insertAll e calls = some table ∧
      AllowedIPs.Reset.insertAll e calls' = some table' ∧
      (∀ address, address.length = IPv4len →
        table.LookupIPv4 e address = table'.LookupIPv4 e address) ∧
      ∀ address, address.length = IPv6len →
        table.LookupIPv6 e address = table'.LookupIPv6 e address := by
  obtain ⟨table, hrun, href⟩ := insertAll_refines (e := e) Reset_refines calls
  obtain ⟨table', hrun', href'⟩ := insertAll_refines (e := e) Reset_refines calls'
  refine ⟨table, table', hrun, hrun', ?_, ?_⟩
  · intro address ha
    rw [LookupIPv4_refines href ha, LookupIPv4_refines href' ha, routes_perm h apart]
  · intro address ha
    rw [LookupIPv6_refines href ha, LookupIPv6_refines href' ha, routes_perm h apart]

end

def wide : InsertCall Nat := ⟨[192, 168, 0, 0], 16, 1, by decide, by decide⟩
def narrow : InsertCall Nat := ⟨[192, 168, 1, 0], 24, 2, by decide, by decide⟩

theorem nested_networks_commute :
    ∃ table table' : AllowedIPs Nat, AllowedIPs.Reset.insertAll .little [wide, narrow] =
      some table ∧ AllowedIPs.Reset.insertAll .little [narrow, wide] = some table' ∧
      ∀ address, address.length = IPv4len →
        table.LookupIPv4 .little address = table'.LookupIPv4 .little address := by
  obtain ⟨table, table', hrun, hrun', h4, -⟩ := insertions_commute (List.Perm.swap narrow wide [])
    (by simp [InsertCall.SamePrefix, wide, narrow]) .little
  exact ⟨table, table', hrun, hrun', h4⟩

end Go

/-! ## Go and the kernel -/

namespace Kernel
variable [DecidableEq P]

/-- The call on the kernel's table. -/
def operation (c : Go.InsertCall P) : Operation P :=
  if h : c.ip.length = 4 then .insertV4 c.ip h c.cidr (some c.peer)
  else .insertV6 c.ip (c.size_ok.resolve_left h) c.cidr (some c.peer)

theorem write_operation (c : Go.InsertCall P) (size : Nat) (table : Table Bytes P) :
    (operation c).write size table = c.write size table := by
  have hwrite : (operation c).write size table =
      if c.ip.length = size then insertMaybe size table c.ip c.cidr (some c.peer) else table := by
    unfold operation
    split <;> rfl
  rw [hwrite, Go.InsertCall.write]
  by_cases hsize : c.ip.length = size
  · rw [if_pos hsize, if_pos hsize, insertMaybe, if_pos (hsize ▸ c.cidr_le)]
  · rw [if_neg hsize, if_neg hsize]

/-- The same insertions in both, and every address has the same peer. -/
theorem allowedips_agree (e e' : Endian) (calls : List (Go.InsertCall P)) :
    ∃ (goTable : Go.AllowedIPs P) (table : Allowedips P), Go.AllowedIPs.Reset.insertAll e calls =
      some goTable ∧
      Eventually (fun fuel => wgAllowedipsInit.performAll fuel e' (calls.map operation)) table ∧
      (∀ address, address.length = 4 → ∃ peer, goTable.LookupIPv4 e address = some peer ∧
        Eventually (fun fuel => lookup fuel e' ⟨table.root4, table.cell⟩ 32 address) peer) ∧
      ∀ address, address.length = 16 → ∃ peer, goTable.LookupIPv6 e address = some peer ∧
        Eventually (fun fuel => lookup fuel e' ⟨table.root6, table.cell⟩ 128 address) peer := by
  obtain ⟨goTable, hgo, href⟩ := Go.insertAll_refines (e := e) Go.Reset_refines calls
  obtain ⟨table, hrun, t4, t6, h4, h6, -⟩ :=
    performAll_refines (e := e') init_refines (calls.map operation)
  simp only [List.foldl_map, write_operation] at h4 h6
  refine ⟨goTable, table, hgo, hrun, fun address ha => ⟨_, Go.LookupIPv4_refines href ha, ?_⟩,
    fun address ha => ⟨_, Go.LookupIPv6_refines href ha, ?_⟩⟩
  · have hlookup := lookup_spec h4.rep h4.top h4.valid ha (swapEndian_32 ha)
    rwa [h4.get] at hlookup
  · have hlookup := lookup_spec h6.rep h6.top h6.valid ha (swapEndian_128 ha)
    rwa [h6.get] at hlookup

end Kernel

end Sewg
