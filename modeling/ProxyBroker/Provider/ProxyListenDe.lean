/-
ProxyBroker.Provider.ProxyListenDe — reading the list of proxy-listen.de
(`ProxyListenDe.get`).

The list comes in pages, each the answer to a form. `get` takes a hidden
field for the form from a first page and then asks for one page after the
other: five at most, and none behind a page that brings nothing new.

* `hiddenField_page` — the hidden field is read as a page has it, whatever
  the order of the attributes;
* `rounds_outcome` — the loop, from any of its rounds;
* `get_rounds` — what `get` asks for, keeps and returns, for every site.

`post` answers the k-th form, or rejects it. Left out: cookies, the header
of the requests and the log messages, and a hidden field with a number for
a name, which would come first among the properties of the form.
-/
import ProxyBroker.Provider.AbstractProvider

namespace ProxyBroker.Provider.ProxyListenDe

open Lib Lib.Matcher

/-! ## Variants -/

structure IProviderVariant where
  type : Text

def variants : List IProviderVariant :=
  [⟨"http".toList⟩, ⟨"https".toList⟩, ⟨"httphttps".toList⟩]

/-! ## The form -/

def textField (key value : String) : Text × JsValue := (key.toList, .str value.toList)

/-- `data`, as it begins. -/
def formData (v : IProviderVariant) : Object :=
  [textField "filter_port" "",
    textField "filter_http_gateway" "",
    textField "filter_http_anon" "",
    textField "filter_response_time_http" "",
    textField "filter_country" "",
    textField "filter_timeouts1" "",
    textField "liststyle" "info",
    textField "proxies" "300",
    ("type".toList, .str v.type),
    textField "submit" "Anzeigen"]

/-- `_form_data` of a round. -/
def formOf (data : Object) (inc : Nat) : Object :=
  if 0 < inc then
    Object.set (data.filter (fun field => field.1 ≠ "submit".toList)) "next".toList
      (.str "nächste Seite".toList)
  else data

def isInside (c : Char) : Bool := c ≠ '>'

/-- `<input[^>]+type=("|')hidden("|')[^>]*>` -/
def hiddenInput : Matcher Text :=
  andThen (lit ('<' :: ("inpu".toList ++ ['t']))) fun a =>
  andThen (plus isInside) fun b =>
  andThen (lit "type=".toList) fun c =>
  andThen quote fun d =>
  andThen (lit "hidden".toList) fun e =>
  andThen quote fun f =>
  andThen (star isInside) fun g =>
  andThen (lit ['>']) fun h => done (a ++ (b ++ (c ++ (d ++ (e ++ (f ++ (g ++ h)))))))

/-- `[^("|')]` -/
def isAttribute (c : Char) : Bool := !"(\"|')".toList.contains c

/-- `key=("|')([^("|')]+)("|')`, for a key, as its second group. -/
def fieldMatcher (x : Char) (t : Text) : Matcher Text :=
  andThen (lit (x :: (t ++ ['=']))) fun _ =>
  andThen quote fun _ =>
  andThen (plus isAttribute) fun value =>
  andThen quote fun _ => done value

/-- Name and value of the hidden field; without a match there is an
exception. -/
def hiddenField (html : Text) : Option (Text × Text) := do
  let input ← search hiddenInput html
  let name ← search (fieldMatcher 'n' "ame".toList) input
  let value ← search (fieldMatcher 'v' "alue".toList) input
  return (name, value)

/-! ## `get` -/

/-- `MATCH_IP_PORT_REGEX` -/
def matchIpPort : Matcher IProxyData := rowMatcher ['>'] (plus (fun c => !c.isDigit)) []

/-- `get` on its way: the provider, the forms it has sent, and the list it
returns. A rejection returns none. -/
structure Run where
  provider : AbstractProvider IProviderVariant
  posts : List Object
  result : Option (List IProxyData) := none

/-- The loop, with the number of rounds that are left. -/
def rounds (post : Nat → Object → Option Text) (data : Object) : Nat → Run → Run
  | 0, run => { run with result := some run.provider.proxies }
  | left + 1, run =>
      let form := formOf data run.posts.length
      let posts := run.posts ++ [form]
      match post run.posts.length form with
      | none => ⟨run.provider, posts, none⟩
      | some html =>
          let provider := run.provider.pushMatches matchIpPort html
          if run.provider.proxies.length = provider.proxies.length then
            ⟨provider, posts, some provider.proxies⟩
          else rounds post data left ⟨provider, posts, none⟩

/-- `get`, with the answer to its first request; without a variant it
throws. -/
def get (first : Option Text) (post : Nat → Object → Option Text)
    (variant : Option IProviderVariant) (p : AbstractProvider IProviderVariant) : Run :=
  let p :=
    match variant with
    | some v => p.selectVariant IProviderVariant.type variants (.inr v)
    | none => p
  match p.variant with
  | none => ⟨p, [], none⟩
  | some v =>
      match first.bind hiddenField with
      | none => ⟨p, [], none⟩
      | some (name, value) => rounds post ((formData v).set name (.str value)) 5 ⟨p, [], none⟩

/-! ## The hidden field of a page -/

/-- `<input … type="hidden" …>` -/
structure HiddenInput where
  before : Text
  opening : Bool
  closing : Bool
  behind : Text
  before_nonempty : before ≠ []
  before_inside : ∀ c ∈ before, isInside c = true
  behind_inside : ∀ c ∈ behind, isInside c = true

/-- The tag up to its end. -/
def HiddenInput.inner (input : HiddenInput) : Text :=
  ('<' :: ("inpu".toList ++ ['t'])) ++ (input.before ++ ("type=".toList ++
    (quoteText input.opening ++ ("hidden".toList ++ (quoteText input.closing ++ input.behind)))))

def HiddenInput.text (input : HiddenInput) : Text := input.inner ++ ['>']

theorem isInside_quote (double : Bool) : ∀ c ∈ quoteText double, isInside c = true := by
  cases double <;> exact List.all_eq_true.mp rfl

theorem HiddenInput.inside_inner (input : HiddenInput) :
    ∀ c ∈ input.inner, isInside c = true := by
  have hstart : ∀ c ∈ '<' :: ("inpu".toList ++ ['t']), isInside c = true :=
    List.all_eq_true.mp rfl
  have htype : ∀ c ∈ "type=".toList, isInside c = true := List.all_eq_true.mp rfl
  have hhidden : ∀ c ∈ "hidden".toList, isInside c = true := List.all_eq_true.mp rfl
  simp only [HiddenInput.inner, List.forall_mem_append]
  exact ⟨hstart, input.before_inside, htype, isInside_quote _, hhidden, isInside_quote _,
    input.behind_inside⟩

theorem mem_quote {a s r : Text} (h : (a, r) ∈ quote s) :
    ∃ double, a = quoteText double ∧ s = a ++ r := by
  rcases mem_orElse.mp h with h | h
  · obtain ⟨rfl, rfl⟩ := mem_lit.mp h
    exact ⟨true, rfl, rfl⟩
  · obtain ⟨rfl, rfl⟩ := mem_lit.mp h
    exact ⟨false, rfl, rfl⟩

/-- A way of `hiddenInput` is a hidden input. -/
theorem mem_hiddenInput {a s r : Text} (h : (a, r) ∈ hiddenInput s) :
    ∃ input : HiddenInput, a = input.text ∧ s = input.text ++ r := by
  simp only [hiddenInput, mem_andThen, mem_lit, mem_plus, mem_star, mem_done] at h
  obtain ⟨a, s, ⟨rfl, rfl⟩, b, s, ⟨rfl, hne, hbefore⟩, c, s, ⟨rfl, rfl⟩, d, s, hopening, e, s,
    ⟨rfl, rfl⟩, f, s, hclosing, g, s, ⟨rfl, hbehind⟩, h, s, ⟨rfl, rfl⟩, rfl, rfl⟩ := h
  obtain ⟨opening, rfl, rfl⟩ := mem_quote hopening
  obtain ⟨closing, rfl, rfl⟩ := mem_quote hclosing
  exact ⟨⟨b, opening, closing, g, hne, hbefore, hbehind⟩,
    by simp [HiddenInput.text, HiddenInput.inner], by simp [HiddenInput.text, HiddenInput.inner]⟩

theorem HiddenInput.mem (input : HiddenInput) (r : Text) :
    (input.text, r) ∈ hiddenInput (input.text ++ r) := by
  have hquote (double : Bool) (s : Text) :
      (quoteText double, s) ∈ quote (quoteText double ++ s) :=
    List.mem_of_head? (takes_quote double s)
  simp only [hiddenInput, mem_andThen, mem_lit, mem_plus, mem_star, mem_done]
  refine ⟨_, _, ⟨rfl, ?_⟩, input.before, _, ⟨rfl, input.before_nonempty, input.before_inside⟩,
    _, _, ⟨rfl, rfl⟩, _, _, hquote input.opening _, _, _, ⟨rfl, rfl⟩, _, _,
    hquote input.closing _, input.behind, _, ⟨rfl, input.behind_inside⟩, _, r, ⟨rfl, rfl⟩, ?_, rfl⟩
  · simp [HiddenInput.text, HiddenInput.inner]
  · simp [HiddenInput.text, HiddenInput.inner]

/-- However a hidden input is matched, it ends where the tag does. -/
theorem HiddenInput.takes (input : HiddenInput) (r : Text) :
    Takes hiddenInput (input.text ++ r) input.text r := by
  refine takes_of_unique (input.mem r) ?_
  rintro ⟨a, r'⟩ hway
  obtain ⟨input', rfl, hsplit⟩ := mem_hiddenInput hway
  simp only [HiddenInput.text, List.append_assoc, List.singleton_append] at hsplit ⊢
  have htake := congrArg (List.takeWhile isInside) hsplit
  rw [List.takeWhile_append_of_pos input.inside_inner,
    List.takeWhile_append_of_pos input'.inside_inner] at htake
  have hinner : input.inner = input'.inner := by simpa [isInside] using htake
  rw [hinner, List.append_cancel_left_eq, List.cons.injEq] at hsplit
  rw [hinner, hsplit.2]

/-- `key="value"`, in one of the quotes. -/
structure Quoted where
  opening : Bool
  value : Text
  closing : Bool
  nonempty : value ≠ []
  chars : ∀ c ∈ value, isAttribute c = true

def Quoted.text (x : Char) (t : Text) (q : Quoted) : Text :=
  (x :: (t ++ ['='])) ++ (quoteText q.opening ++ (q.value ++
    quoteText q.closing))

theorem Quoted.takes (x : Char) (t : Text) (q : Quoted) (r : Text) :
    Takes (fieldMatcher x t) (q.text x t ++ r) q.value r := by
  have hclosing : ∀ c ∈ (quoteText q.closing ++ r).head?, isAttribute c = false := by
    intro c hc
    cases hquote : q.closing <;> (rw [hquote] at hc; cases hc; rfl)
  have htext : q.text x t ++ r = (x :: (t ++ ['='])) ++ (quoteText q.opening ++
      (q.value ++ (quoteText q.closing ++ r))) := by
    simp only [Quoted.text, List.append_assoc]
  rw [htext]
  exact takes_andThen (takes_lit _ _) (takes_andThen (takes_quote _ _)
    (takes_andThen (takes_plus q.nonempty q.chars hclosing)
      (takes_andThen (takes_quote _ _) (takes_done _ _))))

/-- Where a tag has an attribute, the first place at that. -/
structure Field (tag : Text) (x : Char) (t : Text) extends Quoted where
  before : Text
  behind : Text
  quiet : Quiet (fieldMatcher x t) before (toQuoted.text x t ++ behind)
  tag_eq : tag = before ++ (toQuoted.text x t ++ behind)

theorem Field.search {tag t : Text} {x : Char} (field : Field tag x t) :
    search (fieldMatcher x t) tag = some field.value :=
  calc Matcher.search (fieldMatcher x t) tag
      = Matcher.search (fieldMatcher x t) _ := congrArg _ field.tag_eq
    _ = Matcher.search (fieldMatcher x t) _ := search_quiet field.quiet
    _ = some field.value := search_match (field.takes x t field.behind)

/-- A page with a hidden input that has a name and a value, the first one
at that. -/
structure FirstPage where
  before : Text
  input : HiddenInput
  behind : Text
  name : Field input.text 'n' "ame".toList
  value : Field input.text 'v' "alue".toList
  quiet : Quiet hiddenInput before (input.text ++ behind)

def FirstPage.text (page : FirstPage) : Text := page.before ++ (page.input.text ++ page.behind)

/-- **The hidden field is read as the page has it.** -/
theorem hiddenField_page (page : FirstPage) :
    hiddenField page.text = some (page.name.value, page.value.value) := by
  have hinput : search hiddenInput page.text = some page.input.text := by
    rw [FirstPage.text, search_quiet page.quiet, search_match (page.input.takes page.behind)]
  simp only [hiddenField, hinput, page.name.search, page.value.search, Option.bind_eq_bind,
    Option.bind_some]
  rfl

/-! ## The list -/

/-- What stands between an address and its port, without a digit. -/
structure Between where
  text : Text
  nonempty : text ≠ []
  digitless : ∀ c ∈ text, c.isDigit = false

def Between.gap (between : Between) : Gap (plus (fun c => !c.isDigit)) where
  text := between.text
  starts := by
    obtain ⟨c, s, hs⟩ := List.exists_cons_of_ne_nil between.nonempty
    exact ⟨c, by simp [hs], between.digitless c (by simp [hs])⟩
  takes r hr := by
    refine takes_plus between.nonempty (by simpa using between.digitless) ?_
    obtain ⟨c, hc, hdigit⟩ := hr
    intro d hd
    rw [Option.mem_unique hd hc, hdigit]
    rfl

def listRow (row : ProxyRow × Between) : Row matchIpPort (rowMore []) :=
  writeRow (by intro c hc; cases hc) row.1 row.2.gap

/-- A page of the list. -/
abbrev ListPage := Page listRow

def ListPage.html (list : ListPage) : Text := list.text

/-- What a page has to offer. -/
def ListPage.entries (list : ListPage) : List IProxyData := list.pieces.map (fun q => q.2.1.data)

theorem matchAll_html (list : ListPage) : matchAll matchIpPort list.html = list.entries :=
  matchAll_page list

/-- What is kept after the first `k` pages. -/
def keptAfter (kept : List IProxyData) (lists : List ListPage) (k : Nat) : List IProxyData :=
  pushAll kept ((lists.take k).flatMap ListPage.entries)

/-- A page has something new to a list. -/
def Brings (kept : List IProxyData) (list : ListPage) : Prop :=
  ∃ data ∈ list.entries, data ∉ kept

/-- What a run of `get` has got from a site: `lists` are the pages it was
given, one for each form unless the last was refused, and every page but
the last brought something new. -/
structure Outcome (site : Nat → Object → Option ListPage) (data : Object)
    (kept : List IProxyData) (lists : List ListPage) (run : Run) : Prop where
  posts : run.posts = (List.range run.posts.length).map (formOf data)
  posts_le : run.posts.length ≤ 5
  answered : ∀ k list, lists[k]? = some list → site k (formOf data k) = some list
  proxies : run.provider.proxies = keptAfter kept lists lists.length
  brings : ∀ k list, lists[k]? = some list → k + 1 < run.posts.length →
    Brings (keptAfter kept lists k) list
  ending :
    (run.result = none ∧ run.posts.length = lists.length + 1 ∧
        site lists.length (formOf data lists.length) = none) ∨
      (run.result = some run.provider.proxies ∧ run.posts.length = lists.length ∧
        (lists.length = 5 ∨ ∃ before list, lists = before ++ [list] ∧
          ¬ Brings (keptAfter kept lists before.length) list))

/-! ## The rounds -/

section Rounds

variable {site : Nat → Object → Option ListPage} {data : Object} {kept : List IProxyData}
  {before : List ListPage} {list : ListPage} {run : Run}

theorem keptAfter_append {k : Nat} (hk : k ≤ before.length) (more : List ListPage) :
    keptAfter kept (before ++ more) k = keptAfter kept before k := by
  rw [keptAfter, List.take_append_of_le_length hk, keptAfter]

theorem keptAfter_length (lists : List ListPage) :
    keptAfter kept lists lists.length = pushAll kept (lists.flatMap ListPage.entries) := by
  rw [keptAfter, List.take_length]

theorem keptAfter_snoc :
    keptAfter kept (before ++ [list]) (before ++ [list]).length =
      pushAll (keptAfter kept before before.length) list.entries := by
  rw [keptAfter_length, keptAfter_length, List.flatMap_append, pushAll_append,
    List.flatMap_singleton]

theorem proxies_pushMatches (p : AbstractProvider IProviderVariant) (list : ListPage) :
    (p.pushMatches matchIpPort list.html).proxies = pushAll p.proxies list.entries := by
  rw [AbstractProvider.pushMatches_eq, matchAll_html]

/-- `size_before === size_after` -/
theorem stale_iff (p : AbstractProvider IProviderVariant) (list : ListPage) :
    p.proxies.length = (p.pushMatches matchIpPort list.html).proxies.length ↔
      ¬ Brings p.proxies list := by
  rw [proxies_pushMatches, length_pushAll_eq_iff]
  simp [Brings]

theorem getElem?_snoc {P : Nat → ListPage → Prop} (h : ∀ k l, before[k]? = some l → P k l)
    (hlast : P before.length list) : ∀ k l, (before ++ [list])[k]? = some l → P k l := by
  intro k l hl
  rcases Nat.lt_trichotomy k before.length with hk | hk | hk
  · rw [List.getElem?_append_left hk] at hl
    exact h k l hl
  · rw [hk, List.getElem?_concat_length] at hl
    exact hk ▸ Option.some.inj hl ▸ hlast
  · rw [List.getElem?_eq_none (by simp; omega)] at hl
    cases hl

/-- Between two rounds: every page so far has brought something. -/
structure Going (site : Nat → Object → Option ListPage) (data : Object) (kept : List IProxyData)
    (before : List ListPage) (run : Run) : Prop where
  posts : run.posts = (List.range before.length).map (formOf data)
  answered : ∀ k list, before[k]? = some list → site k (formOf data k) = some list
  proxies : run.provider.proxies = keptAfter kept before before.length
  brings : ∀ k list, before[k]? = some list → Brings (keptAfter kept before k) list

theorem Going.length_posts (h : Going site data kept before run) :
    run.posts.length = before.length := by
  rw [h.posts, List.length_map, List.length_range]

theorem Going.snoc_posts (h : Going site data kept before run) :
    run.posts ++ [formOf data run.posts.length] =
      (List.range (before.length + 1)).map (formOf data) := by
  rw [h.length_posts, h.posts, List.range_succ, List.map_append, List.map_singleton]

theorem Going.length_snoc_posts (h : Going site data kept before run) (form : Object) :
    (run.posts ++ [form]).length = before.length + 1 := by
  rw [List.length_append, List.length_singleton, h.length_posts]

/-- The page of the next round. -/
theorem Going.snoc (h : Going site data kept before run)
    (hanswer : site run.posts.length (formOf data run.posts.length) = some list)
    (hbrings : Brings run.provider.proxies list) :
    Going site data kept (before ++ [list])
      ⟨run.provider.pushMatches matchIpPort list.html,
        run.posts ++ [formOf data run.posts.length], none⟩ where
  posts := by simpa using h.snoc_posts
  answered := getElem?_snoc h.answered (h.length_posts ▸ hanswer)
  proxies := by rw [keptAfter_snoc, proxies_pushMatches, h.proxies]
  brings := by
    refine getElem?_snoc (fun k l hl => ?_) ?_
    · have hk : k ≤ before.length := Nat.le_of_lt (List.getElem?_eq_some_iff.mp hl).1
      rw [keptAfter_append hk]
      exact h.brings k l hl
    · rw [keptAfter_append (Nat.le_refl _), ← h.proxies]
      exact hbrings

/-- A round that is refused. -/
theorem Going.refused (h : Going site data kept before run) (hfew : before.length < 5)
    (hanswer : site run.posts.length (formOf data run.posts.length) = none) :
    Outcome site data kept before
      ⟨run.provider, run.posts ++ [formOf data run.posts.length], none⟩ where
  posts := by simp [h.snoc_posts]
  posts_le := by rw [h.length_snoc_posts]; exact hfew
  answered := h.answered
  proxies := h.proxies
  brings k list hlist _ := h.brings k list hlist
  ending := .inl ⟨rfl, by simp [h.length_posts], h.length_posts ▸ hanswer⟩

/-- A round with a page that brings nothing. -/
theorem Going.stale (h : Going site data kept before run) (hfew : before.length < 5)
    (hanswer : site run.posts.length (formOf data run.posts.length) = some list)
    (hstale : ¬ Brings run.provider.proxies list) :
    Outcome site data kept (before ++ [list])
      ⟨run.provider.pushMatches matchIpPort list.html,
        run.posts ++ [formOf data run.posts.length],
        some (run.provider.pushMatches matchIpPort list.html).proxies⟩ where
  posts := by simp [h.snoc_posts]
  posts_le := by rw [h.length_snoc_posts]; exact hfew
  answered := getElem?_snoc h.answered (h.length_posts ▸ hanswer)
  proxies := by rw [keptAfter_snoc, proxies_pushMatches, h.proxies]
  brings k l hl hk := by
    have hk' : k < before.length := by simpa [h.length_posts] using hk
    rw [keptAfter_append (Nat.le_of_lt hk')]
    exact h.brings k l (by rwa [List.getElem?_append_left hk'] at hl)
  ending := by
    refine .inr ⟨rfl, by simp [h.length_posts], .inr ⟨before, list, rfl, ?_⟩⟩
    rwa [keptAfter_append (Nat.le_refl _), ← h.proxies]

/-- The end of the last round. -/
theorem Going.full (h : Going site data kept before run) (hfull : before.length = 5) :
    Outcome site data kept before { run with result := some run.provider.proxies } where
  posts := by rw [h.length_posts, h.posts]
  posts_le := by rw [h.length_posts, hfull]
  answered := h.answered
  proxies := h.proxies
  brings k list hlist _ := h.brings k list hlist
  ending := .inr ⟨rfl, h.length_posts, .inl hfull⟩

/-- **The loop**, from any of its rounds. -/
theorem rounds_outcome {left : Nat} (h : Going site data kept before run)
    (hleft : before.length + left = 5) :
    ∃ lists, Outcome site data kept lists
      (rounds (fun k form => (site k form).map ListPage.html) data left run) := by
  induction left generalizing before run with
  | zero => exact ⟨before, h.full hleft⟩
  | succ left ih =>
      have hfew : before.length < 5 := by omega
      cases hanswer : site run.posts.length (formOf data run.posts.length) with
      | none =>
          refine ⟨before, ?_⟩
          rw [rounds]
          simp only [hanswer, Option.map_none]
          exact h.refused hfew hanswer
      | some list =>
          rw [rounds]
          simp only [hanswer, Option.map_some]
          by_cases hbrings : Brings run.provider.proxies list
          · rw [if_neg (fun hsize => (stale_iff _ _).mp hsize hbrings)]
            refine ih (h.snoc hanswer hbrings) ?_
            rw [List.length_append, List.length_singleton]
            omega
          · rw [if_pos ((stale_iff _ _).mpr hbrings)]
            exact ⟨_, h.stale hfew hanswer hbrings⟩

end Rounds

/-- **What `get` does with a site**: it sends its form and then asks for the
next page, up to a refusal, a page with nothing new or the fifth page, and
keeps everything it was given. -/
theorem get_rounds (p : AbstractProvider IProviderVariant) (v : IProviderVariant)
    (hvariant : p.variant = some v) (first : FirstPage) (site : Nat → Object → Option ListPage) :
    ∃ lists, Outcome site ((formData v).set first.name.value (.str first.value.value)) p.proxies
      lists (get (some first.text) (fun k form => (site k form).map ListPage.html) none p) := by
  have hrun : get (some first.text) (fun k form => (site k form).map ListPage.html) none p =
      rounds (fun k form => (site k form).map ListPage.html)
        ((formData v).set first.name.value (.str first.value.value)) 5 ⟨p, [], none⟩ := by
    simp [get, hvariant, hiddenField_page]
  rw [hrun]
  refine rounds_outcome ⟨rfl, ?_, (keptAfter_length []).symm, ?_⟩ rfl
  · intro k list hlist
    cases hlist
  · intro k list hlist
    cases hlist

/-- `<input type="hidden" name="k" value="v">` -/
def exampleInput : HiddenInput where
  before := " ".toList
  opening := true
  closing := true
  behind := " name=\"k\" value=\"v\"".toList
  before_nonempty := List.cons_ne_nil _ _
  before_inside := List.all_eq_true.mp rfl
  behind_inside := List.all_eq_true.mp rfl

def quoted (value : String) (hne : value.toList ≠ [])
    (hchars : value.toList.all isAttribute = true) : Quoted :=
  ⟨true, value.toList, true, hne, List.all_eq_true.mp hchars⟩

/-- An input that is not hidden stands in front of the one that is. -/
def exampleFirst : FirstPage where
  before := "<form><input type=\"text\" name=\"a\">".toList
  input := exampleInput
  behind := "</form>".toList
  name := ⟨quoted "k" (by decide) rfl, "<input type=\"hidden\" ".toList,
    " value=\"v\">".toList, by decide +kernel, rfl⟩
  value := ⟨quoted "v" (by decide) rfl, "<input type=\"hidden\" name=\"k\" ".toList,
    ">".toList, by decide +kernel, rfl⟩
  quiet := by decide +kernel

theorem digitless_cells : ∀ c ∈ "</a></td><td>".toList, c.isDigit = false := by
  intro c hc
  have hall : "</a></td><td>".toList.all (fun c => !c.isDigit) = true := rfl
  simpa using List.all_eq_true.mp hall c hc

def exampleList : ListPage where
  pieces := [("<td>1</td><td><a".toList,
    (exampleRow, ⟨"</a></td><td>".toList, List.cons_ne_nil _ _, digitless_cells⟩))]
  last := "</td>".toList
  spaced := by decide +kernel

def exampleRun : Run :=
  get (some exampleFirst.text) (fun _ _ => some exampleList.html) none
    { variant := some ⟨"http".toList⟩ }

/-- A site with one page: it is asked for twice. -/
theorem get_rounds_twice :
    ∃ lists, Outcome (fun _ _ => some exampleList)
        ((formData ⟨"http".toList⟩).set "k".toList (.str "v".toList)) [] lists exampleRun ∧
      lists.length = 2 := by
  obtain ⟨lists, houtcome⟩ := get_rounds { variant := some ⟨"http".toList⟩ } ⟨"http".toList⟩ rfl
    exampleFirst (fun _ _ => some exampleList)
  have hposts : exampleRun.posts.length = 2 := by decide +kernel
  have hresult : exampleRun.result ≠ none := by decide +kernel
  refine ⟨lists, houtcome, ?_⟩
  rcases houtcome.ending with ⟨hnone, -, -⟩ | ⟨-, hlength, -⟩
  · exact absurd hnone hresult
  · exact hlength.symm.trans hposts

end ProxyBroker.Provider.ProxyListenDe
