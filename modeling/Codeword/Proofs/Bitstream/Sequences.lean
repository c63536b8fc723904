import Codeword.Proofs.Bitstream.Calls
import Codeword.Proofs.Bitstream.Format

namespace Codeword

def BitReader.atBit (data : List Bool) (n : Nat) : BitReader := ⟨n, data.drop n⟩

/-- One call after the other up to the first that fails: what was read, each time with the
stream after it. -/
def readAll : List Call → BitReader → Except StreamError (List (Item × BitReader))
  | [], _ => .ok []
  | c :: cs, r =>
    match c.read r with
    | (.error e, _) => .error e
    | (.ok v, r) => (readAll cs r).map ((⟨c, v⟩, r) :: ·)

def writeAll : List Item → BitWriter → Except StreamError (List BitWriter)
  | [], _ => .ok []
  | ⟨c, v⟩ :: is, w =>
    match c.write v w with
    | (.error e, _) => .error e
    | (.ok (), w) => (writeAll is w).map (w :: ·)

section steps

variable {c : Call} {v : c.Value} {w w' : BitWriter} {r' : BitReader} {data bs : List Bool}

theorem Call.write_eq_ok : c.write v w = (.ok (), w') ↔
    ∃ bs, c.bits w.position v = .ok bs ∧ w' = ⟨w.bits ++ bs⟩ := by
  rw [Call.write_eq]
  cases c.bits w.position v with
  | error e => simp [BitWriter.put]
  | ok bs => simp [BitWriter.put, eq_comm]

theorem BitWriter.position_append (w : BitWriter) (bs : List Bool) :
    position ⟨w.bits ++ bs⟩ = w.position + bs.length :=
  List.length_append

theorem BitWriter.atBit_position (h : w.bits ++ bs = data) :
    BitReader.atBit data w.position = ⟨w.position, bs⟩ := by
  rw [BitReader.atBit, ← h, position, List.drop_left]

theorem Call.write_of_read (hw : w.bits <+: data)
    (h : c.read (.atBit data w.position) = (.ok v, r')) :
    ∃ w', c.write v w = (.ok (), w') ∧ w'.bits <+: data ∧ r' = .atBit data w'.position := by
  obtain ⟨rest, hdata⟩ := hw
  rw [BitWriter.atBit_position hdata] at h
  obtain ⟨bs, hbits, hrest, hposition⟩ := Call.read_eq_ok.1 h
  have hdata' : (w.bits ++ bs) ++ r'.rest = data := by
    rw [List.append_assoc, ← hrest, hdata]
  refine ⟨⟨w.bits ++ bs⟩, Call.write_eq_ok.2 ⟨bs, hbits, rfl⟩, ⟨r'.rest, hdata'⟩, ?_⟩
  rw [BitWriter.atBit_position (w := ⟨w.bits ++ bs⟩) hdata', BitWriter.position_append]
  cases r'
  congr

theorem Call.read_of_write (h : c.write v w = (.ok (), w')) (hw' : w'.bits <+: data) :
    c.read (.atBit data w.position) = (.ok v, .atBit data w'.position) := by
  obtain ⟨bs, hbits, rfl⟩ := Call.write_eq_ok.1 h
  obtain ⟨rest, hdata⟩ := hw'
  have hdata' : w.bits ++ (bs ++ rest) = data := by
    rw [← List.append_assoc, hdata]
  rw [BitWriter.atBit_position hdata, BitWriter.atBit_position hdata', BitWriter.position_append]
  exact Call.read_append hbits rest

theorem Call.prefix_of_write (h : c.write v w = (.ok (), w')) : w.bits <+: w'.bits := by
  obtain ⟨bs, -, rfl⟩ := Call.write_eq_ok.1 h
  exact List.prefix_append _ _

theorem Item.Fits.exists_write {i : Item} (h : i.Fits) (w : BitWriter) :
    ∃ w', i.1.write i.2 w = (.ok (), w') := by
  obtain ⟨bs, hbits⟩ := h.exists_bits w.position
  exact ⟨_, Call.write_eq_ok.2 ⟨bs, hbits, rfl⟩⟩

theorem BitWriter.hasMore_atBit {final : BitWriter} (h : w.bits <+: final.bits) (n : Nat) :
    (BitReader.atBit (final.bits ++ true :: List.replicate n false) w.position).hasMore =
      decide (w.position < final.position) := by
  obtain ⟨bs, hbits⟩ := h
  have hdata : w.bits ++ (bs ++ true :: List.replicate n false) =
      final.bits ++ true :: List.replicate n false := by
    rw [← List.append_assoc, hbits]
  have hlength : final.position = w.position + bs.length := by
    rw [position, ← hbits, List.length_append, position]
  rw [atBit_position hdata, hlength]
  cases bs with
  | nil => simpa using BitReader.hasMore_stop w.position n
  | cons b bs => simp [BitReader.hasMore]

end steps

section runs

variable {c : Call} {v : c.Value} {cs : List Call} {i : Item} {is : List Item} {r : BitReader}
  {w : BitWriter} {ws : List BitWriter} {trace : List (Item × BitReader)} {data : List Bool}

theorem readAll_cons : readAll (c :: cs) r = .ok trace ↔
    ∃ v r' rest, c.read r = (.ok v, r') ∧ readAll cs r' = .ok rest ∧
      trace = (⟨c, v⟩, r') :: rest := by
  rw [readAll]
  cases c.read r with
  | mk result r' =>
      cases result with
      | error e => simp
      | ok v => cases htail : readAll cs r' <;> simp [Except.map, eq_comm, htail]

theorem writeAll_cons : writeAll (⟨c, v⟩ :: is) w = .ok ws ↔
    ∃ w' rest, c.write v w = (.ok (), w') ∧ writeAll is w' = .ok rest ∧ ws = w' :: rest := by
  rw [writeAll]
  cases c.write v w with
  | mk result w' =>
      cases result with
      | error e => simp
      | ok u => cases htail : writeAll is w' <;> simp [Except.map, eq_comm, htail]

theorem exists_writeAll (h : ∀ i ∈ is, i.Fits) (w : BitWriter) : ∃ ws, writeAll is w = .ok ws := by
  induction is generalizing w with
  | nil => exact ⟨[], rfl⟩
  | cons i is ih =>
      obtain ⟨w', hw'⟩ := (h i (by simp)).exists_write w
      obtain ⟨rest, hrest⟩ := ih (fun j hj => h j (by simp [hj])) w'
      exact ⟨w' :: rest, writeAll_cons.2 ⟨w', rest, hw', hrest, rfl⟩⟩

theorem prefix_last_of_writeAll (h : writeAll is w = .ok ws) :
    ∀ w' ∈ w :: ws, w'.bits <+: (ws.getLastD w).bits := by
  induction is generalizing w ws with
  | nil =>
      cases h
      simp
  | cons i is ih =>
      obtain ⟨w₁, rest, hw₁, hrest, rfl⟩ := writeAll_cons.1 h
      have hlast := ih hrest
      intro w' hw'
      rw [List.getLastD_cons]
      rcases List.mem_cons.1 hw' with rfl | hw'
      · exact (Call.prefix_of_write hw₁).trans (hlast w₁ (by simp))
      · exact hlast w' hw'

theorem writeAll_of_readAll_atBit (hw : w.bits <+: data)
    (h : readAll cs (.atBit data w.position) = .ok trace) :
    trace.map (·.1.1) = cs ∧
      ∃ ws, writeAll (trace.map (·.1)) w = .ok ws ∧ (∀ w' ∈ ws, w'.bits <+: data) ∧
        trace.map (·.2) = ws.map fun w' => .atBit data w'.position := by
  induction cs generalizing w trace with
  | nil =>
      cases h
      exact ⟨rfl, [], rfl, by simp, rfl⟩
  | cons c cs ih =>
      obtain ⟨v, r', rest, hread, hrest, rfl⟩ := readAll_cons.1 h
      obtain ⟨w', hwrite, hw', rfl⟩ := Call.write_of_read hw hread
      obtain ⟨hcalls, ws, hws, hpre, hreaders⟩ := ih hw' hrest
      refine ⟨?_, w' :: ws, writeAll_cons.2 ⟨w', ws, hwrite, hws, rfl⟩, ?_, ?_⟩
      · rw [List.map_cons, hcalls]
      · simpa using ⟨hw', hpre⟩
      · rw [List.map_cons, List.map_cons, hreaders]

theorem readAll_of_writeAll_atBit (h : writeAll is w = .ok ws)
    (hdata : (ws.getLastD w).bits <+: data) :
    ∃ trace, readAll (is.map (·.1)) (.atBit data w.position) = .ok trace ∧
      trace.map (·.1) = is ∧ trace.map (·.2) = ws.map fun w' => .atBit data w'.position := by
  induction is generalizing w ws with
  | nil =>
      cases h
      exact ⟨[], rfl, rfl, rfl⟩
  | cons i is ih =>
      obtain ⟨w', rest, hw', hrest, rfl⟩ := writeAll_cons.1 h
      rw [List.getLastD_cons] at hdata
      -- The reader meets what is there in the end, and a call's own bits are a part of that.
      have hpre := prefix_last_of_writeAll hrest w' (by simp)
      obtain ⟨trace, htrace, hitems, hreaders⟩ := ih hrest hdata
      refine ⟨(i, .atBit data w'.position) :: trace, ?_, ?_, ?_⟩
      · exact readAll_cons.2 ⟨i.2, _, _, Call.read_of_write hw' (hpre.trans hdata), htrace, rfl⟩
      · rw [List.map_cons, hitems]
      · rw [List.map_cons, List.map_cons, hreaders]

theorem map_position_eq (h : trace.map (·.2) = ws.map fun w' => .atBit data w'.position) :
    trace.map (·.2.position) = ws.map (·.position) := by
  have hmap := congrArg (List.map BitReader.position) h
  simpa [List.map_map, Function.comp_def, BitReader.atBit] using hmap

/-- Values that fit can be written one after the other. The same calls read them back, and after
each of them the reader stands where the writer stood. There is more until the last bit is read. -/
theorem readAll_of_fits (h : ∀ i ∈ is, i.Fits) :
    ∃ ws trace, writeAll is {} = .ok ws ∧
      readAll (is.map (·.1)) (.ofBytes (ws.getLastD {}).finish) = .ok trace ∧
      trace.map (·.1) = is ∧ trace.map (·.2.position) = ws.map (·.position) ∧
      ∀ r ∈ BitReader.ofBytes (ws.getLastD {}).finish :: trace.map (·.2),
        r.hasMore = decide (r.position < (ws.getLastD {}).position) := by
  obtain ⟨ws, hws⟩ := exists_writeAll h {}
  have hbytes := BitWriter.ofBytes_finish (ws.getLastD {})
  obtain ⟨trace, htrace, hitems, hreaders⟩ :=
    readAll_of_writeAll_atBit hws (List.prefix_append _ _)
  rw [← hbytes] at htrace hreaders
  refine ⟨ws, trace, hws, htrace, hitems, map_position_eq hreaders, ?_⟩
  intro r hr
  obtain ⟨w', hw', rfl⟩ : ∃ w' ∈ ({} : BitWriter) :: ws,
      BitReader.atBit (Bits.ofBytes (ws.getLastD {}).finish) w'.position = r := by
    rw [hreaders] at hr
    exact List.mem_map.1 hr
  rw [hbytes]
  exact BitWriter.hasMore_atBit (prefix_last_of_writeAll hws w' hw') _

theorem readAll_of_fits_extremes :
    let is : List Item :=
      [⟨.u 3, 5⟩, ⟨.ue, 4294967294⟩, ⟨.align true, ()⟩, ⟨.se, -2147483647⟩, ⟨.flag, true⟩]
    (∀ i ∈ is, i.Fits) ∧
      ∃ ws trace, writeAll is {} = .ok ws ∧
        readAll (is.map (·.1)) (.ofBytes (ws.getLastD {}).finish) = .ok trace ∧
        trace.map (·.1) = is ∧ trace.map (·.2.position) = [3, 66, 72, 135, 136] := by
  intro is
  have hfits : ∀ i ∈ is, i.Fits := by decide
  obtain ⟨ws, trace, hws, htrace, hitems, hpositions, -⟩ := readAll_of_fits hfits
  have hwriters : (writeAll is {}).map (·.map (·.position)) = .ok [3, 66, 72, 135, 136] := rfl
  rw [hws] at hwriters
  exact ⟨hfits, ws, trace, hws, htrace, hitems, hpositions.trans (Except.ok.inj hwriters)⟩

/-- What was read can be written, and it gives the bits that were read: no value has a second
spelling. -/
theorem writeAll_of_readAll {bytes : List UInt8} (h : readAll cs (.ofBytes bytes) = .ok trace) :
    trace.map (·.1.1) = cs ∧
      ∃ ws, writeAll (trace.map (·.1)) {} = .ok ws ∧
        ws.map (·.position) = trace.map (·.2.position) ∧
        ws.map (·.bits) = trace.map fun x => (Bits.ofBytes bytes).take x.2.position := by
  obtain ⟨hcalls, ws, hws, hpre, hreaders⟩ :=
    writeAll_of_readAll_atBit (w := {}) List.nil_prefix h
  have hpositions := (map_position_eq hreaders).symm
  refine ⟨hcalls, ws, hws, hpositions, ?_⟩
  have hbits := congrArg (List.map fun n => (Bits.ofBytes bytes).take n) hpositions
  rw [List.map_map, List.map_map] at hbits
  refine Eq.trans (List.map_congr_left fun w' hw' => ?_) hbits
  exact List.prefix_iff_eq_take.1 (hpre w' hw')

theorem writeAll_of_readAll_aligned :
    ∃ trace ws, readAll [.u 3, .ue, .se, .flag, .align false] (.ofBytes [164, 112]) = .ok trace ∧
      trace.map (·.1) = [⟨.u 3, 5⟩, ⟨.ue, 3⟩, ⟨.se, -1⟩, ⟨.flag, true⟩, ⟨.align false, ()⟩] ∧
      writeAll (trace.map (·.1)) {} = .ok ws ∧
      ws.map (·.bits) = trace.map fun x => (Bits.ofBytes [164, 112]).take x.2.position := by
  obtain ⟨trace, htrace, hitems⟩ : ∃ trace,
      readAll [.u 3, .ue, .se, .flag, .align false] (.ofBytes [164, 112]) = .ok trace ∧
        trace.map (·.1) =
          [⟨.u 3, 5⟩, ⟨.ue, 3⟩, ⟨.se, -1⟩, ⟨.flag, true⟩, ⟨.align false, ()⟩] :=
    ⟨_, rfl, rfl⟩
  obtain ⟨-, ws, hws, -, hbits⟩ := writeAll_of_readAll htrace
  exact ⟨trace, ws, htrace, hitems, hws, hbits⟩

end runs

end Codeword
