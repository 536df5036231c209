import AgentPrompts.Proofs.Generation.Progress
import AgentPrompts.Proofs.Prompt.Bytes

/-! # Bytes of prompt files

A prompt file holds the bytes of the template, repaired where they are ill-formed, with the
digits of its agent in the place of each marker. Bytes that are well-formed need no repair.
-/

namespace AgentPrompts.Generation

open Number Utf8

/-- What a generation makes of the bytes of its template: each prompt file holds them, repaired,
with the digits of its agent in the place of each marker. -/
structure Copied (s : Settings) (d : Disk) (g : Generation) (content repaired : List UInt8) :
    Prop where
  read : d.readFile s.template = .ok content
  repaired_iff : ∀ bytes, Repaired content bytes ↔ bytes = repaired
  wellFormed : (∃ text, content = encode text) → repaired = content
  markers : MarkersKept content repaired
  files : ∀ i ∈ s.count.agents, g.disk.readFile (promptFilePath s.outDir (.ofNat i)) =
    .ok (replaceAll markerBytes (digitBytes i) repaired)

variable {s : Settings} {d : Disk} {r : GenerateResult}

/-- A generation that returns has copied every byte of its template outside the markers. -/
theorem bytes_of_generate (hx : s.count.BelowExact) (hr : (generate s d).result = .ok r) :
    ∃ content repaired, Copied s d (generate s d) content repaired := by
  obtain ⟨n, hn⟩ := exists_agents s.count
  have hbound : ∀ i ∈ firstAgents n, i < exactBound :=
    fun i hi => lt_exactBound_of_mem_agents hx (hn ▸ hi)
  obtain ⟨template, made, ht, hd, hw, hg⟩ := (run_generate s d hx).eq_unhindered hr hn
  obtain ⟨content, hstat, rfl⟩ := loadTemplate_eq_ok_iff.mp ht
  refine ⟨content, encode (decode content), ?_⟩
  exact
    { read := by rw [Disk.readFile, hstat]
      repaired_iff := fun _ => Utf8.repaired_iff
      wellFormed := by
        rintro ⟨text, rfl⟩
        rw [decode_encode]
      markers := markersKept_of_repaired (Utf8.repaired_iff.mpr rfl)
      files := by
        intro i hi
        rw [hn] at hi
        rw [hg, readFile_unhindered (leads_of_made hd) hbound hw _ hi, promptBytes,
          encode_renderPrompt (hbound i hi)] }

/-- A template with a byte order mark, an ill-formed sequence right in front of a marker, a
line break, a zero byte, a second marker and half of a third behind another ill-formed one. -/
def damaged : Disk :=
  ⟨.directory [("t", .file [0xEF, 0xBB, 0xBF, 0xE2, 0x82, 0x7B, 0x4E, 0x7D, 0x0D, 0x0A, 0x00,
    0xC3, 0xA9, 0x7B, 0x4E, 0x7D, 0x7B, 0xC3, 0x4E, 0x7D])], []⟩

theorem bytes_of_generate_damaged :
    let s : Settings := ⟨.ofNat 2, "t", "o"⟩
    let g := generate s damaged
    g.disk.node? ["o", "agent_02.md"] = some (.file [0xEF, 0xBB, 0xBF, 0xEF, 0xBF, 0xBD, 0x32,
      0x0D, 0x0A, 0x00, 0xC3, 0xA9, 0x32, 0x7B, 0xEF, 0xBF, 0xBD, 0x4E, 0x7D]) ∧
    ∃ r, g.result = .ok r ∧ ∃ content repaired, Copied s damaged g content repaired := by
  intro s g
  obtain ⟨r, hr⟩ : ∃ r, g.result = .ok r := exists_of_isOk (by decide +kernel)
  exact ⟨by decide +kernel, r, hr, bytes_of_generate (belowExact_ofNat.mpr (by decide)) hr⟩

end AgentPrompts.Generation
