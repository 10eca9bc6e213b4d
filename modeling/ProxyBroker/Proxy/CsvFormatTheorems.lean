/-
ProxyBroker.Proxy.CsvFormatTheorems — csv output can be read back.

Every cell of a row is a text without spaces and without ';', so a line
is split where it was joined, and trimming changes nothing. `readLine`
reads a row of either shape (`readLine_cells`) and nothing from a header;
since rows are told apart by their texts (`join_cells_inj`), taking each
text once is taking each row once.
-/
import ProxyBroker.Proxy.CsvFormat

namespace ProxyBroker.Proxy

open Lib Server

/-! ## Lists -/

section Lists

variable {α β : Type} [BEq α] [LawfulBEq α] [BEq β] [LawfulBEq β]

/-- Duplicates among the images of an injective function are images of
duplicates. -/
theorem eraseDups_map {f : α → β} {l : List α} (hinj : ∀ x ∈ l, ∀ y ∈ l, f x = f y → x = y) :
    (l.map f).eraseDups = l.eraseDups.map f := by
  induction hn : l.length using Nat.strongRecOn generalizing l with
  | ind n ih =>
      cases l with
      | nil => rfl
      | cons a l =>
          have hfilter : (l.map f).filter (fun b => !b == f a) =
              (l.filter (fun b => !b == a)).map f := by
            rw [List.filter_map]
            congr 1
            apply List.filter_congr
            intro x hx
            have hiff : f x = f a ↔ x = a :=
              ⟨hinj x (List.mem_cons_of_mem _ hx) a List.mem_cons_self, fun h => by rw [h]⟩
            have hbeq : (f x == f a) = (x == a) := by
              rw [Bool.eq_iff_iff, beq_iff_eq, beq_iff_eq, hiff]
            simp [hbeq]
          have hlen := List.length_filter_le (fun b => !b == a) l
          have hshort : (l.filter (fun b => !b == a)).length < n := by
            rw [← hn, List.length_cons]
            omega
          rw [List.map_cons, List.eraseDups_cons, List.eraseDups_cons, List.map_cons, hfilter,
            ih _ hshort _ rfl]
          intro x hx y hy
          exact hinj x (List.mem_cons_of_mem _ (List.mem_filter.mp hx).1) y
            (List.mem_cons_of_mem _ (List.mem_filter.mp hy).1)

omit [BEq β] [LawfulBEq β] in
theorem eraseDups_cons_of_not_mem {a : α} {l : List α} (h : a ∉ l) :
    (a :: l).eraseDups = a :: l.eraseDups := by
  rw [List.eraseDups_cons]
  congr 2
  rw [List.filter_eq_self]
  intro x hx
  have hne : x ≠ a := fun heq => h (heq ▸ hx)
  simpa using hne

end Lists

namespace OutputHelper

/-! ## Cells -/

/-- A cell: something, with no space and no ';' in it. -/
structure Plain (t : Text) : Prop where
  ne_nil : t ≠ []
  nonspace : ∀ c ∈ t, JsText.isSpace c = false
  no_sep : ';' ∉ t

theorem plain_of_decide {t : Text}
    (h : (t ≠ [] && t.all (fun c => !JsText.isSpace c && c ≠ ';')) = true) : Plain t := by
  simp only [Bool.and_eq_true, decide_eq_true_eq, List.all_eq_true, Bool.not_eq_true'] at h
  exact ⟨h.1, fun c hc => (h.2 c hc).1, fun hmem => (h.2 ';' hmem).2 rfl⟩

theorem digit_nonspace {c : Char} (h : c.isDigit = true) :
    JsText.isSpace c = false ∧ c ≠ ';' ∧ c ≠ '-' := by
  have hdigits : ∀ d : Fin 10, JsText.isSpace (Char.ofNat (48 + d)) = false ∧
      Char.ofNat (48 + d) ≠ ';' ∧ Char.ofNat (48 + d) ≠ '-' := by
    decide
  have hlt : 48 ≤ c.toNat ∧ c.toNat ≤ 57 := Char.isDigit_iff_toNat.mp h
  have hc : c = Char.ofNat (48 + (c.toNat - 48)) := by
    rw [Nat.add_sub_cancel' hlt.1, Char.ofNat_toNat]
  rw [hc]
  exact hdigits ⟨c.toNat - 48, by omega⟩

theorem plain_natText (n : Nat) : Plain (natText n) := by
  have hdigit : ∀ c ∈ natText n, c.isDigit = true :=
    fun c hc => Nat.isDigit_of_mem_toDigits (by decide) (by decide) hc
  exact ⟨Nat.toDigits_ne_nil, fun c hc => (digit_nonspace (hdigit c hc)).1,
    fun hmem => (digit_nonspace (hdigit _ hmem)).2.1 rfl⟩

theorem plain_intText (z : Int) : Plain (intText z) := by
  cases z with
  | ofNat n => exact plain_natText n
  | negSucc n =>
      have h := plain_natText (n + 1)
      refine ⟨List.cons_ne_nil _ _, ?_, ?_⟩
      · intro c hc
        rcases List.mem_cons.mp hc with rfl | hc
        · decide
        · exact h.nonspace c hc
      · intro hmem
        rcases List.mem_cons.mp hmem with heq | hmem
        · cases heq
        · exact h.no_sep hmem

theorem plain_boolText (b : Bool) : Plain (boolText b) := by
  cases b <;> exact plain_of_decide (by decide)

theorem mem_join {sep c : Char} {texts : List Text} (h : c ∈ join sep texts) :
    c = sep ∨ ∃ t ∈ texts, c ∈ t := by
  induction texts with
  | nil => cases h
  | cons t texts ih =>
      cases texts with
      | nil => exact .inr ⟨t, List.mem_cons_self, by simpa [join] using h⟩
      | cons t' texts =>
          rw [join, List.intercalate_cons_cons, List.append_assoc, List.mem_append,
            List.singleton_append, List.mem_cons] at h
          rcases h with h | h | h
          · exact .inr ⟨t, List.mem_cons_self, h⟩
          · exact .inl h
          · exact (ih h).imp_right (fun ⟨u, hu, hc⟩ => ⟨u, List.mem_cons_of_mem _ hu, hc⟩)

/-- An address is digits and dots. -/
theorem plain_ip {ip : Text} (h : ProxyValidateCommand.isIp ip = true) : Plain ip := by
  have hparts : ((ip.splitOn '.').length = 4) ∧ ∀ p ∈ ip.splitOn '.', p.all Char.isDigit := by
    simp only [ProxyValidateCommand.isIp, Bool.and_eq_true, decide_eq_true_eq,
      List.all_eq_true] at h
    exact ⟨h.1, fun p hp => List.all_eq_true.mpr (h.2 p hp).2⟩
  have hchars : ∀ c ∈ ip, c = '.' ∨ c.isDigit = true := by
    intro c hc
    have hjoin : ['.'].intercalate (ip.splitOn '.') = ip := List.intercalate_splitOn '.'
    rw [← hjoin] at hc
    refine (mem_join hc).imp_right ?_
    rintro ⟨p, hp, hcp⟩
    exact List.all_eq_true.mp (hparts.2 p hp) c hcp
  refine ⟨?_, ?_, ?_⟩
  · rintro rfl
    exact absurd hparts.1 (by decide)
  · intro c hc
    rcases hchars c hc with rfl | hdigit
    · decide
    · exact (digit_nonspace hdigit).1
  · intro hmem
    rcases hchars ';' hmem with heq | hdigit
    · cases heq
    · exact (digit_nonspace hdigit).2.1 rfl

/-! ## Numbers are told apart by their texts -/

theorem natText_value (n : Nat) : Nat.ofDigitChars 10 (natText n) 0 = n :=
  Nat.ofDigitChars_ten_toDigits

theorem natText_inj {m n : Nat} (h : natText m = natText n) : m = n := by
  rw [← natText_value m, h, natText_value]

theorem minus_not_mem_natText (n : Nat) : '-' ∉ natText n := by
  intro hmem
  exact (digit_nonspace (Nat.isDigit_of_mem_toDigits (by decide) (by decide) hmem)).2.2 rfl

theorem intText_inj {y z : Int} (h : intText y = intText z) : y = z := by
  cases y with
  | ofNat m =>
      cases z with
      | ofNat n => rw [natText_inj h]
      | negSucc n =>
          refine absurd ?_ (minus_not_mem_natText m)
          rw [show natText m = '-' :: natText (n + 1) from h]
          exact List.mem_cons_self
  | negSucc m =>
      cases z with
      | ofNat n =>
          refine absurd ?_ (minus_not_mem_natText n)
          rw [show natText n = '-' :: natText (m + 1) from h.symm]
          exact List.mem_cons_self
      | negSucc n =>
          have heq : m + 1 = n + 1 := natText_inj (List.cons.inj h).2
          rw [Nat.succ.inj heq]

theorem boolText_inj {a b : Bool} (h : boolText a = boolText b) : a = b := by
  cases a <;> cases b <;> first | rfl | cases h

/-! ## Rows -/

end OutputHelper

/-- The proxy a row is about. -/
def OutputRow.endpoint : OutputRow → ProxyData
  | .data ip port => { ip := ip, port := port }
  | .result r => { ip := r.ip, port := r.port }

/-- A row as there are: the address is four parts of one to three digits,
the port is not 0, and a protocol is http or https. -/
structure OutputRow.Printable (row : OutputRow) : Prop where
  ip : ProxyValidateCommand.isIp row.endpoint.ip = true
  port : 1 ≤ row.endpoint.port
  protocol : ∀ r, row = .result r → ProxyValidateCommand.isSchema r.protocol = true

namespace OutputHelper

theorem isSchema_iff {t : Text} :
    ProxyValidateCommand.isSchema t = true ↔ t = "http".toList ∨ t = "https".toList := by
  simp [ProxyValidateCommand.isSchema]

theorem plain_cells {row : OutputRow} (h : row.Printable) : ∀ t ∈ cells row, Plain t := by
  have hip := plain_ip h.ip
  cases row with
  | data ip port =>
      intro t ht
      simp only [cells, List.mem_cons, List.not_mem_nil, or_false] at ht
      rcases ht with rfl | rfl
      · exact hip
      · exact plain_natText port
  | result r =>
      have hprotocol : Plain r.protocol := by
        rcases isSchema_iff.mp (h.protocol r rfl) with heq | heq <;> rw [heq] <;>
          exact plain_of_decide (by decide)
      intro t ht
      simp only [cells, List.mem_cons, List.not_mem_nil, or_false] at ht
      rcases ht with rfl | rfl | rfl | rfl | rfl | rfl
      · exact hprotocol
      · exact hip
      · exact plain_natText _
      · exact plain_boolText _
      · exact plain_intText _
      · exact plain_intText _

theorem splitOn_join {sep : Char} {texts : List Text} (hne : texts ≠ [])
    (h : ∀ t ∈ texts, sep ∉ t) : (join sep texts).splitOn sep = texts :=
  List.splitOn_intercalate sep h hne

theorem cells_ne_nil (row : OutputRow) : cells row ≠ [] := by
  cases row <;> exact List.cons_ne_nil _ _

theorem cells_inj {row row' : OutputRow} (h : cells row = cells row') : row = row' := by
  cases row with
  | data ip port =>
      cases row' with
      | data ip' port' =>
          simp only [cells, List.cons.injEq, and_true] at h
          rw [h.1, natText_inj h.2]
      | result r => simp [cells] at h
  | result r =>
      cases row' with
      | data ip port => simp [cells] at h
      | result r' =>
          obtain ⟨protocol, ip, port, enabled, level, duration⟩ := r
          obtain ⟨protocol', ip', port', enabled', level', duration'⟩ := r'
          simp only [cells, List.cons.injEq, and_true] at h
          obtain ⟨rfl, rfl, hport, henabled, hlevel, hduration⟩ := h
          rw [natText_inj hport, boolText_inj henabled, intText_inj hlevel, intText_inj hduration]

/-- **Rows are told apart by their texts.** -/
theorem join_cells_inj {row row' : OutputRow} (h : row.Printable) (h' : row'.Printable)
    (heq : join ';' (cells row) = join ';' (cells row')) : row = row' := by
  apply cells_inj
  rw [← splitOn_join (cells_ne_nil row) (fun t ht => (plain_cells h t ht).no_sep), heq,
    splitOn_join (cells_ne_nil row') (fun t ht => (plain_cells h' t ht).no_sep)]

/-! ## Lines -/

/-- A line: something, without spaces. -/
structure Line (t : Text) : Prop where
  ne_nil : t ≠ []
  nonspace : ∀ c ∈ t, JsText.isSpace c = false

theorem line_join {texts : List Text} (hne : texts ≠ []) (h : ∀ t ∈ texts, Plain t) :
    Line (join ';' texts) where
  ne_nil := by
    obtain ⟨t, texts, rfl⟩ := List.exists_cons_of_ne_nil hne
    have ht := (h t List.mem_cons_self).ne_nil
    cases texts with
    | nil => simpa [join] using ht
    | cons t' texts => simp [join, List.intercalate_cons_cons]
  nonspace := by
    intro c hc
    rcases mem_join hc with rfl | ⟨t, ht, hct⟩
    · decide
    · exact (h t ht).nonspace c hct

theorem join_head {lines : List Text} (hne : lines ≠ []) (h : ∀ t ∈ lines, Line t) :
    ∃ c q, join '\n' lines = c :: q ∧ JsText.isSpace c = false := by
  obtain ⟨l, lines, rfl⟩ := List.exists_cons_of_ne_nil hne
  have hl := h l List.mem_cons_self
  obtain ⟨c, q, rfl⟩ := List.exists_cons_of_ne_nil hl.ne_nil
  have hc := hl.nonspace c List.mem_cons_self
  cases lines with
  | nil => exact ⟨c, q, by simp [join], hc⟩
  | cons l' lines => exact ⟨c, _, by rw [join, List.intercalate_cons_cons]; rfl, hc⟩

theorem join_last {lines : List Text} (hne : lines ≠ []) (h : ∀ t ∈ lines, Line t) :
    ∃ u e, join '\n' lines = u ++ [e] ∧ JsText.isSpace e = false := by
  induction lines with
  | nil => exact absurd rfl hne
  | cons l lines ih =>
      cases lines with
      | nil =>
          have hl := h l List.mem_cons_self
          refine ⟨l.dropLast, l.getLast hl.ne_nil, ?_, hl.nonspace _ (List.getLast_mem _)⟩
          rw [join, List.intercalate_singleton, List.dropLast_append_getLast]
      | cons l' lines =>
          obtain ⟨u, e, hu, he⟩ := ih (by simp) (fun t ht => h t (List.mem_cons_of_mem _ ht))
          rw [join] at hu
          refine ⟨l ++ ['\n'] ++ u, e, ?_, he⟩
          rw [join, List.intercalate_cons_cons, hu, List.append_assoc, List.append_assoc,
            List.append_assoc]

/-- The line end behind the last line is trimmed away. -/
theorem trim_lines {lines : List Text} (hne : lines ≠ []) (h : ∀ t ∈ lines, Line t) :
    JsText.trim (join '\n' lines ++ ['\n']) = join '\n' lines := by
  obtain ⟨c, q, hhead, hc⟩ := join_head hne h
  obtain ⟨u, e, hlast, he⟩ := join_last hne h
  rw [hhead] at hlast ⊢
  refine JsText.trim_append_of_isSpace hc he hlast ?_
  intro x hx
  rw [List.mem_singleton.mp hx]
  decide

theorem newline_not_mem {t : Text} (h : Line t) : '\n' ∉ t := by
  intro hmem
  exact absurd (h.nonspace _ hmem) (by decide)

end OutputHelper

namespace ProxyValidateCommand

open OutputHelper

/-! ## Reading back -/

theorem isSchema_of_isIp {t : Text} (h : isIp t = true) : isSchema t = false := by
  cases hs : isSchema t with
  | false => rfl
  | true => rcases isSchema_iff.mp hs with rfl | rfl <;> exact absurd h (by decide)

theorem isNumber_natText (n : Nat) : isNumber (natText n) = true := by
  have hne : natText n ≠ [] := Nat.toDigits_ne_nil
  have hall : (natText n).all Char.isDigit = true := by
    rw [List.all_eq_true]
    exact fun c hc => Nat.isDigit_of_mem_toDigits (by decide) (by decide) hc
  simp [isNumber, hne, hall]

/-- **A row is read as its proxy.** -/
theorem readLine_cells {row : OutputRow} (h : row.Printable) :
    readLine (join ';' (cells row)) = some row.endpoint := by
  have hplain := plain_cells h
  have htrim : (cells row).map JsText.trim = cells row := by
    rw [List.map_congr_left (fun t ht => JsText.trim_of_nonspace (hplain t ht).nonspace),
      List.map_id']
  have hport : row.endpoint.port ≠ 0 := Nat.ne_of_gt h.port
  rw [readLine, splitOn_join (cells_ne_nil row) (fun t ht => (hplain t ht).no_sep), htrim]
  cases row with
  | data ip port =>
      have hip : isIp ip = true := h.ip
      simp only [OutputRow.endpoint] at hport ⊢
      simp [cells, isSchema_of_isIp hip, hip, isNumber_natText, natText_value, hport]
  | result r =>
      have hip : isIp r.ip = true := h.ip
      simp only [OutputRow.endpoint] at hport ⊢
      simp [cells, h.protocol r rfl, hip, isNumber_natText, natText_value, hport]

/-- A header row is read as nothing. -/
theorem readLine_header (row : OutputRow) : readLine (join ';' (header row)) = none := by
  cases row with
  | data ip port =>
      show readLine (join ';' ["ip".toList, "port".toList]) = none
      decide
  | result r =>
      show readLine (join ';' ["protocol".toList, "ip".toList, "port".toList, "enabled".toList,
        "level".toList, "duration".toList]) = none
      decide

theorem plain_header (row : OutputRow) : ∀ t ∈ header row, Plain t := by
  intro t ht
  cases row <;> simp only [header, List.mem_cons, List.not_mem_nil, or_false] at ht
  · rcases ht with rfl | rfl <;> exact plain_of_decide (by decide)
  · rcases ht with rfl | rfl | rfl | rfl | rfl | rfl <;> exact plain_of_decide (by decide)

theorem header_ne_nil (row : OutputRow) : header row ≠ [] := by
  cases row <;> exact List.cons_ne_nil _ _

/-- What is printed of a list that is not empty: the header, and the
distinct rows. -/
theorem csvRows_cons {first : OutputRow} {rest : List OutputRow}
    (h : ∀ row ∈ first :: rest, row.Printable) :
    csvRows (first :: rest) = join ';' (header first) ::
      (first :: rest).eraseDups.map (fun row => join ';' (cells row)) := by
  have hheader : join ';' (header first) ∉
      (first :: rest).map (fun row => join ';' (cells row)) := by
    intro hmem
    obtain ⟨row, hrow, heq⟩ := List.mem_map.mp hmem
    have hread := readLine_cells (h row hrow)
    rw [heq, readLine_header] at hread
    cases hread
  rw [csvRows, eraseDups_cons_of_not_mem hheader,
    eraseDups_map (fun x hx y hy heq => join_cells_inj (h x hx) (h y hy) heq)]

/-- **Csv output can be read back.** For every list of rows, the command
reads from what is printed the proxies of the distinct rows, in the order
in which they first occur. -/
theorem readCsv_printResults (results : List OutputRow) (h : ∀ row ∈ results, row.Printable) :
    readCsv (printResults results) = results.eraseDups.map OutputRow.endpoint := by
  rw [readCsv, printResults, Utf8.decode_encode]
  cases results with
  | nil => decide
  | cons first rest =>
      have hrows : ∀ row ∈ (first :: rest).eraseDups, row.Printable :=
        fun row hrow => h row (List.mem_eraseDups.mp hrow)
      have hlines : ∀ t ∈ csvRows (first :: rest), Line t := by
        rw [csvRows_cons h]
        intro t ht
        rcases List.mem_cons.mp ht with rfl | ht
        · exact line_join (header_ne_nil first) (plain_header first)
        · obtain ⟨row, hrow, rfl⟩ := List.mem_map.mp ht
          exact line_join (cells_ne_nil row) (plain_cells (hrows row hrow))
      have hne : csvRows (first :: rest) ≠ [] := by
        rw [csvRows_cons h]
        exact List.cons_ne_nil _ _
      rw [trim_lines hne hlines, splitOn_join hne (fun t ht => newline_not_mem (hlines t ht)),
        csvRows_cons h, List.filterMap_cons_none (readLine_header first), List.filterMap_map,
        ← List.filterMap_eq_map]
      apply List.filterMap_congr
      intro row hrow
      exact readLine_cells (hrows row hrow)

/-- Both shapes, and a row twice. -/
def mixedRows : List OutputRow :=
  [.data "10.0.0.1".toList 80,
    .result ⟨"https".toList, "10.0.0.2".toList, 8080, true, -1, 33⟩,
    .data "10.0.0.1".toList 80]

theorem readCsv_mixedRows :
    readCsv (printResults mixedRows) = mixedRows.eraseDups.map OutputRow.endpoint := by
  refine readCsv_printResults mixedRows ?_
  intro row hrow
  simp only [mixedRows, List.mem_cons, List.not_mem_nil, or_false] at hrow
  rcases hrow with rfl | rfl | rfl
  · exact ⟨by decide, by decide, fun r hr => by cases hr⟩
  · refine ⟨by decide, by decide, ?_⟩
    rintro r ⟨⟩
    decide
  · exact ⟨by decide, by decide, fun r hr => by cases hr⟩

end ProxyValidateCommand

end ProxyBroker.Proxy
