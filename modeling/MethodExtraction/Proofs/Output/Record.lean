import Mathlib.Data.List.Lemmas
import MethodExtraction.Output.Format
import MethodExtraction.Proofs.Output.Printing

namespace MethodExtraction.Output

open Java Text

def unescapeQuotes : List Char → List Char
  | '\\' :: '"' :: cs => '"' :: unescapeQuotes cs
  | c :: cs => c :: unescapeQuotes cs
  | [] => []

theorem head?_flatMap_escapeQuote (cs : List Char) :
    (cs.flatMap escapeQuote).head? ≠ some '"' := by
  intro h
  cases cs with
  | nil => cases h
  | cons c cs =>
    rw [List.flatMap_cons, escapeQuote] at h
    split_ifs at h with hc
    · cases h
    · exact hc (Option.some.inj h)

theorem unescapeQuotes_cons (c : Char) (cs : List Char) :
    unescapeQuotes (c :: cs.flatMap escapeQuote) = c :: unescapeQuotes (cs.flatMap escapeQuote) := by
  rw [unescapeQuotes]
  intro ds _ hds
  exact head?_flatMap_escapeQuote cs (by rw [hds, List.head?_cons])

theorem unescapeQuotes_flatMap (cs : List Char) : unescapeQuotes (cs.flatMap escapeQuote) = cs := by
  induction cs with
  | nil => rfl
  | cons c cs ih =>
    by_cases hc : c = '"'
    · rw [List.flatMap_cons, escapeQuote, if_pos hc, hc]
      exact congrArg ('"' :: ·) ih
    · rw [List.flatMap_cons, escapeQuote, if_neg hc, List.singleton_append,
        unescapeQuotes_cons, ih]

def OutputFormat.sourceText (format : OutputFormat) (method : String) : String :=
  match format with
  | .legacy => String.ofList (unescapeQuotes method.toList)
  | .strict => method

theorem toList_escapeQuotes (text : String) :
    (escapeQuotes text).text.toList = text.toList.flatMap escapeQuote := by
  rw [escapeQuotes]
  split_ifs with h
  · exact String.toList_ofList
  · have hc : ∀ c ∈ text.toList, escapeQuote c = [c] := by
      intro c hc
      exact if_neg fun (he : c = '"') => h (he ▸ hc)
    rw [List.flatMap_congr hc, List.flatMap_singleton', Escaped.text]

theorem OutputFormat.sourceText_methodText (format : OutputFormat) (method : String) :
    format.sourceText (format.methodText method) = method := by
  cases format with
  | strict => rfl
  | legacy =>
    rw [sourceText, methodText, toList_escapeQuotes, unescapeQuotes_flatMap, String.ofList_toList]

def OutputFormat.recordValue (format : OutputFormat) (r : MethodRecord) : Json.Value :=
  .object [("name", .string r.name), ("method", .string (format.methodText r.method)),
    ("hasBody", .bool r.hasBody)]

variable (format : OutputFormat) (r : MethodRecord)

theorem reads_formatRecord :
    Json.Reads (formatRecord format r).toList (format.recordValue r) := by
  refine Json.reads_object
    [("name", Json.string r.name, .string r.name),
      ("method", Json.string (format.methodText r.method), .string (format.methodText r.method)),
      ("hasBody", Json.bool r.hasBody, .bool r.hasBody)] ?_
  simp only [List.forall_mem_cons]
  exact ⟨Json.reads_string _, Json.reads_string _, Json.reads_bool _, List.forall_mem_nil _⟩

theorem printable_formatRecord : Json.Printable (formatRecord format r).toList := by
  apply Json.printable_object
  simp only [List.forall_mem_cons]
  exact ⟨Json.printable_string _, Json.printable_string _, Json.printable_bool _,
    List.forall_mem_nil _⟩

theorem formatRecord_eq_append : ∃ body, formatRecord format r = body ++ "\x7d" := ⟨_, rfl⟩

theorem getLast?_formatRecord : (formatRecord format r).toList.getLast? = some '\x7d' := by
  obtain ⟨body, hb⟩ := formatRecord_eq_append format r
  rw [hb, String.toList_append]
  exact List.getLast?_concat

def recordOfValue? : Json.Value → Option MethodRecord
  | .object members =>
    match members.lookup "name", members.lookup "method", members.lookup "hasBody" with
    | some (.string name), some (.string method), some (.bool hasBody) =>
      some ⟨name, format.sourceText method, hasBody⟩
    | _, _, _ => none
  | _ => none

theorem recordOfValue?_recordValue : recordOfValue? format (format.recordValue r) = some r := by
  have hv : recordOfValue? format (format.recordValue r) =
      some ⟨r.name, format.sourceText (format.methodText r.method), r.hasBody⟩ := rfl
  rw [hv, format.sourceText_methodText]

def readRecord? (bytes : List UInt8) : Option MethodRecord :=
  (Json.readBytes? bytes).bind (recordOfValue? format)

theorem readRecord?_encode : readRecord? format (Utf8.encode (formatRecord format r)) = some r := by
  rw [readRecord?, Json.readBytes?_encode, (reads_formatRecord format r).read?, Option.bind_some,
    recordOfValue?_recordValue]

variable {format r}

theorem read?_object_of_readRecord? {bytes : List UInt8} (h : readRecord? format bytes = some r) :
    ∃ text members, bytes = Utf8.encode text ∧
      Json.read? text.toList = some (.object members) := by
  obtain ⟨v, hv, hr⟩ := Option.bind_eq_some_iff.1 h
  obtain ⟨text, ht, hv⟩ := Option.bind_eq_some_iff.1 hv
  cases v with
  | object members => exact ⟨text, members, Utf8.ofBytes?_eq_some_iff.1 ht, hv⟩
  | _ => cases hr

/-- Nothing short of its last brace is read from the text of a record. -/
theorem readRecord?_torn {part rest : List UInt8}
    (h : part ++ rest = Utf8.encode (formatRecord format r)) (hr : rest ≠ []) :
    readRecord? format part = none := by
  refine Option.eq_none_iff_forall_ne_some.2 fun r' hr' => ?_
  obtain ⟨text, members, rfl, hm⟩ := read?_object_of_readRecord? hr'
  obtain ⟨more, hmore⟩ := Utf8.isPrefix_of_encode_append h
  have hread : (Json.read? (text.toList ++ more)).isSome := by
    rw [hmore, (reads_formatRecord format r).read?]
    rfl
  have hblank := Json.isBlank_of_read?_object hm hread
  obtain rfl | ⟨more, c, rfl⟩ := List.eq_nil_or_concat more
  · rw [List.append_nil, String.toList_inj] at hmore
    rw [hmore] at h
    exact hr (List.append_cancel_left (h.trans (List.append_nil _).symm))
  · have hc := getLast?_formatRecord format r
    rw [← hmore, List.concat_eq_append, ← List.append_assoc, List.getLast?_concat,
      Option.some_inj] at hc
    have := hblank c (by simp)
    rw [hc] at this
    cases this

end MethodExtraction.Output
