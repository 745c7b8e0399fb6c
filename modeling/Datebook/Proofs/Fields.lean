import Datebook.Proofs.Overlays
import Datebook.Settings.Basic

/-!
# The fields of a configuration

Every key of the configuration has a place, a kind of value that it accepts and a default
(`Settings.Key`), and every default passes its own key's check (`accepts_fallback`). A table of
sections makes a configuration just if every section is a table and every key accepts the value it
has there, or its default; the fields of the configuration are these values
(`ofSetting?_eq_some_iff`). A section that is a list is left out: its values have positions in place
of keys.
-/

namespace Datebook

namespace Setting

/-- What a key accepts. -/
inductive Kind
  | text
  | oneOf (names : List String)
  | below (limit : Nat)

def Kind.Accepts : Kind → Setting → Prop
  | .text, .text _ => True
  | .oneOf names, .text s => s ∈ names
  | .below limit, .integer n => 0 ≤ n ∧ n < limit
  | _, _ => False

end Setting

namespace Settings

/-- The keys of all sections. -/
inductive Key
  | bind
  | port
  | level
  | kind
  | path
  | url
  | stream
  | group
  | consumer
  | maxAttempts
  | retryBackoffMs
  | maxLength
  | blockMs
  | intervalSecs
  | retentionSecs
  deriving DecidableEq

namespace Key

def part : Key → String
  | .bind | .port => "server"
  | .level => "logging"
  | .kind | .path => "storage"
  | .intervalSecs | .retentionSecs => "scheduler"
  | _ => "broker"

def name : Key → String
  | .bind => "bind"
  | .port => "port"
  | .level => "level"
  | .kind => "kind"
  | .path => "path"
  | .url => "url"
  | .stream => "stream"
  | .group => "group"
  | .consumer => "consumer"
  | .maxAttempts => "max_attempts"
  | .retryBackoffMs => "retry_backoff_ms"
  | .maxLength => "max_len"
  | .blockMs => "block_ms"
  | .intervalSecs => "interval_secs"
  | .retentionSecs => "retention_secs"

/-- Where the key's value stands among the sections. -/
def place (k : Key) : List String := [k.part, k.name]

def accepted : Key → Setting.Kind
  | .kind => .oneOf ["memory", "sqlite"]
  | .port => .below (twoTo 16)
  | .maxAttempts => .below (twoTo 32)
  | .retryBackoffMs | .maxLength | .blockMs | .intervalSecs | .retentionSecs => .below (twoTo 64)
  | _ => .text

/-- The value of a key that is not set. -/
def fallback (home : Option String) : Key → Setting
  | .bind => .text "127.0.0.1"
  | .port => .integer (8080 : Nat)
  | .level => .text "info"
  | .kind => .text StorageKind.memory.name
  | .path => .text (homeDirectory home ++ "/calendar.db")
  | .url => .text "redis://127.0.0.1:6379"
  | .stream => .text "notifications"
  | .group => .text "storer"
  | .consumer => .text "storer-1"
  | .maxAttempts => .integer (10 : Nat)
  | .retryBackoffMs => .integer (1000 : Nat)
  | .maxLength => .integer (10000 : Nat)
  | .blockMs => .integer (1000 : Nat)
  | .intervalSecs => .integer (60 : Nat)
  | .retentionSecs => .integer (31536000 : Nat)

end Key

/-- The field that a key sets. -/
def get (s : Settings) : Key → Setting
  | .bind => .text s.server.bind
  | .port => .integer s.server.port
  | .level => .text s.logging.level
  | .kind => .text s.storage.kind.name
  | .path => .text s.storage.path
  | .url => .text s.broker.url
  | .stream => .text s.broker.stream
  | .group => .text s.broker.group
  | .consumer => .text s.broker.consumer
  | .maxAttempts => .integer s.broker.maxAttempts
  | .retryBackoffMs => .integer s.broker.retryBackoffMs
  | .maxLength => .integer s.broker.maxLength
  | .blockMs => .integer s.broker.blockMs
  | .intervalSecs => .integer s.scheduler.intervalSecs
  | .retentionSecs => .integer s.scheduler.retentionSecs

def parts : List String := sections.map Prod.fst

end Settings

open Settings

section Kinds

variable {u v w : Setting} {K : Setting.Kind}

theorem Setting.Kind.Accepts.isTable_eq (h : K.Accepts v) : v.isTable = false := by
  cases v with
  | table ms => cases K <;> cases h
  | _ => rfl

/-- Tables are told apart by no key, since none accepts one. -/
theorem Setting.Kind.accepts_congr (h : u.Alike v) :
    K.Accepts u ∧ w = u ↔ K.Accepts v ∧ w = v := by
  rcases h with rfl | ⟨hu, hv⟩
  · exact .rfl
  · constructor
    · rintro ⟨hK, -⟩
      simp [hK.isTable_eq] at hu
    · rintro ⟨hK, -⟩
      simp [hK.isTable_eq] at hv

theorem Settings.Key.accepts_fallback (home : Option String) (k : Key) :
    k.accepted.Accepts (k.fallback home) := by
  cases k <;> simp [accepted, fallback, Setting.Kind.Accepts, StorageKind.name, twoTo]

theorem Settings.Key.part_mem (k : Key) : k.part ∈ parts := by
  cases k <;> decide

theorem Settings.exists_part_eq {part : String} (h : part ∈ parts) : ∃ k : Key, k.part = part := by
  simp only [parts, sections, List.map_cons, List.map_nil, List.mem_cons, List.not_mem_nil,
    or_false] at h
  rcases h with rfl | rfl | rfl | rfl | rfl
  exacts [⟨.bind, rfl⟩, ⟨.level, rfl⟩, ⟨.kind, rfl⟩, ⟨.url, rfl⟩, ⟨.intervalSecs, rfl⟩]

end Kinds

section Readers

variable {α : Type} {accept : Setting → Option α} {shown : α → Setting} {K : Setting.Kind}

/-- What is accepted is what the kind says, and the field shows the very value. -/
def Setting.Reads (accept : Setting → Option α) (K : Setting.Kind) (shown : α → Setting) : Prop :=
  ∀ v a, accept v = some a ↔ K.Accepts v ∧ shown a = v

theorem Setting.reads_text? : Reads text? .text .text := by
  intro v a
  cases v <;> simp [text?, Kind.Accepts, eq_comm]

theorem Setting.reads_nat? (limit : Nat) :
    Reads (nat? limit) (.below limit) fun n : Nat => .integer n := by
  intro v a
  cases v with
  | integer n =>
    simp only [nat?, Kind.Accepts, integer.injEq]
    split_ifs with h
    · rw [Option.some.injEq]
      omega
    · simp [h]
  | _ => simp [nat?, Kind.Accepts]

theorem StorageKind.reads_ofName? : Setting.Reads (fun v => v.text?.bind StorageKind.ofName?)
    (.oneOf ["memory", "sqlite"]) fun kind => .text kind.name := by
  intro v a
  cases v with
  | text s =>
    simp only [Setting.text?, Option.bind_some, ofName?, Setting.Kind.Accepts]
    cases a <;> grind [StorageKind.name]
  | _ => simp [Setting.text?, Setting.Kind.Accepts]

/-- The value of a key in its section, or its default, is accepted, and the field shows it. -/
def Settings.Key.Takes (home : Option String) (holder : Setting) (k : Key) (field : Setting) :
    Prop :=
  k.accepted.Accepts ((holder.at? [k.name]).getD (k.fallback home)) ∧
    field = (holder.at? [k.name]).getD (k.fallback home)

theorem Settings.key?_eq_some_iff (home : Option String) (k : Key) (position : Nat)
    {holder : Setting} (hholder : holder.isTable = true)
    (hreads : Setting.Reads accept k.accepted shown) {fallback : α}
    (hfallback : shown fallback = k.fallback home) {a : α} :
    holder.key? position k.name accept fallback = some a ↔ k.Takes home holder (shown a) := by
  obtain ⟨ms, rfl⟩ : ∃ ms, holder = .table ms := by
    cases holder with
    | table ms => exact ⟨ms, rfl⟩
    | _ => cases hholder
  rw [Setting.key?, Setting.member?, Key.Takes, ← hreads, Setting.at?]
  rcases ms.lookup k.name with _ | v
  · have haccept : accept (k.fallback home) = some fallback :=
      (hreads _ _).2 ⟨k.accepts_fallback home, hfallback⟩
    simp [haccept]
  · rfl

end Readers

section Sections

variable {home : Option String} {s : Setting}

theorem ServerSettings.ofSetting?_eq_some_iff (home : Option String) (hs : s.isTable = true)
    {r : ServerSettings} : ofSetting? s = some r ↔
      Key.bind.Takes home s (.text r.bind) ∧ Key.port.Takes home s (.integer r.port) := by
  refine Iff.trans ?_ (and_congr (key?_eq_some_iff home .bind 0 hs Setting.reads_text? rfl)
    (key?_eq_some_iff home .port 1 hs (Setting.reads_nat? _) rfl))
  cases r
  simp [ofSetting?, Option.bind_eq_some_iff, Key.name]

theorem LoggingSettings.ofSetting?_eq_some_iff (home : Option String) (hs : s.isTable = true)
    {r : LoggingSettings} : ofSetting? s = some r ↔ Key.level.Takes home s (.text r.level) := by
  refine Iff.trans ?_ (key?_eq_some_iff home .level 0 hs Setting.reads_text? rfl)
  cases r
  simp [ofSetting?, Option.bind_eq_some_iff, Key.name]

theorem StorageSettings.ofSetting?_eq_some_iff (hs : s.isTable = true) {r : StorageSettings} :
    ofSetting? home s = some r ↔
      Key.kind.Takes home s (.text r.kind.name) ∧ Key.path.Takes home s (.text r.path) := by
  refine Iff.trans ?_ (and_congr
    (key?_eq_some_iff home .kind 0 hs StorageKind.reads_ofName? rfl)
    (key?_eq_some_iff home .path 1 hs Setting.reads_text? rfl))
  cases r
  simp [ofSetting?, Option.bind_eq_some_iff, Key.name]

theorem BrokerSettings.ofSetting?_eq_some_iff (home : Option String) (hs : s.isTable = true)
    {r : BrokerSettings} : ofSetting? s = some r ↔
      Key.url.Takes home s (.text r.url) ∧ Key.stream.Takes home s (.text r.stream) ∧
        Key.group.Takes home s (.text r.group) ∧ Key.consumer.Takes home s (.text r.consumer) ∧
        Key.maxAttempts.Takes home s (.integer r.maxAttempts) ∧
        Key.retryBackoffMs.Takes home s (.integer r.retryBackoffMs) ∧
        Key.maxLength.Takes home s (.integer r.maxLength) ∧
        Key.blockMs.Takes home s (.integer r.blockMs) := by
  refine Iff.trans ?_ (and_congr (key?_eq_some_iff home .url 0 hs Setting.reads_text? rfl) <|
    and_congr (key?_eq_some_iff home .stream 1 hs Setting.reads_text? rfl) <|
    and_congr (key?_eq_some_iff home .group 2 hs Setting.reads_text? rfl) <|
    and_congr (key?_eq_some_iff home .consumer 3 hs Setting.reads_text? rfl) <|
    and_congr (key?_eq_some_iff home .maxAttempts 4 hs (Setting.reads_nat? _) rfl) <|
    and_congr (key?_eq_some_iff home .retryBackoffMs 5 hs (Setting.reads_nat? _) rfl) <|
    and_congr (key?_eq_some_iff home .maxLength 6 hs (Setting.reads_nat? _) rfl)
      (key?_eq_some_iff home .blockMs 7 hs (Setting.reads_nat? _) rfl))
  cases r
  simp [ofSetting?, Option.bind_eq_some_iff, Key.name]

theorem SchedulerSettings.ofSetting?_eq_some_iff (home : Option String) (hs : s.isTable = true)
    {r : SchedulerSettings} : ofSetting? s = some r ↔
      Key.intervalSecs.Takes home s (.integer r.intervalSecs) ∧
        Key.retentionSecs.Takes home s (.integer r.retentionSecs) := by
  refine Iff.trans ?_ (and_congr
    (key?_eq_some_iff home .intervalSecs 0 hs (Setting.reads_nat? _) rfl)
    (key?_eq_some_iff home .retentionSecs 1 hs (Setting.reads_nat? _) rfl))
  cases r
  simp [ofSetting?, Option.bind_eq_some_iff, Key.name]

end Sections

section Roots

variable {root : Setting}

theorem Setting.at?_getD_empty (root : Setting) (part key : String) :
    ((root.at? [part]).getD .empty).at? [key] = root.at? [part, key] := by
  cases root with
  | table ms =>
    rw [at?, at?]
    cases ms.lookup part <;> rfl
  | _ => rfl

theorem Setting.section?_eq_some_iff (hroot : root.isTable = true) (position : Nat) {part : String}
    (hlist : ∀ items, (root.at? [part]).getD .empty ≠ .list items) {v : Setting} :
    root.section? position part = some v ↔
      (root.at? [part]).getD .empty = v ∧ v.isTable = true := by
  cases root with
  | table ms =>
    rw [section?, member?]
    rw [at?] at hlist ⊢
    generalize ms.lookup part = found at hlist ⊢
    rcases found with _ | w
    · simp only [Option.bind_none, Option.getD_none, Option.some.injEq]
      exact ⟨fun h => ⟨h, h ▸ rfl⟩, And.left⟩
    · cases w with
      | list items => exact absurd rfl (hlist items)
      | _ => grind [isSection, isTable, at?]
  | _ => cases hroot

theorem Settings.forall_key {p : Key → Prop} : (∀ k, p k) ↔
    (p .bind ∧ p .port) ∧ p .level ∧ (p .kind ∧ p .path) ∧
      (p .url ∧ p .stream ∧ p .group ∧ p .consumer ∧ p .maxAttempts ∧ p .retryBackoffMs ∧
        p .maxLength ∧ p .blockMs) ∧ p .intervalSecs ∧ p .retentionSecs := by
  constructor
  · intro h
    simp [h]
  · rintro ⟨⟨_, _⟩, _, ⟨_, _⟩, ⟨_, _, _, _, _, _, _, _⟩, _, _⟩ k
    cases k <;> assumption

/-- A section's part of the whole: there is a table, and the section's own reader accepts it. -/
theorem Setting.exists_section_iff {α : Type} (hroot : root.isTable = true) (position : Nat)
    {part : String} (hlist : ∀ items, (root.at? [part]).getD .empty ≠ .list items)
    {read : Setting → Option α} {r : α} {p : Setting → Prop}
    (hread : ∀ {v : Setting}, v.isTable = true → (read v = some r ↔ p v)) :
    (root.section? position part).bind read = some r ↔
      ((root.at? [part]).getD .empty).isTable = true ∧ p ((root.at? [part]).getD .empty) := by
  simp only [Option.bind_eq_some_iff, section?_eq_some_iff hroot position hlist]
  constructor
  · rintro ⟨_, ⟨rfl, htable⟩, h⟩
    exact ⟨htable, (hread htable).1 h⟩
  · rintro ⟨htable, h⟩
    exact ⟨_, ⟨rfl, htable⟩, (hread htable).2 h⟩

theorem Settings.ofSetting?_eq_some_iff_sections (home : Option String) {s : Settings} :
    ofSetting? home root = some s ↔
      (root.section? 0 "server").bind ServerSettings.ofSetting? = some s.server ∧
      (root.section? 1 "logging").bind LoggingSettings.ofSetting? = some s.logging ∧
      (root.section? 2 "storage").bind (StorageSettings.ofSetting? home) = some s.storage ∧
      (root.section? 3 "broker").bind BrokerSettings.ofSetting? = some s.broker ∧
      (root.section? 4 "scheduler").bind SchedulerSettings.ofSetting? = some s.scheduler := by
  rw [ofSetting?]
  simp only [Option.bind_eq_bind, ← Option.bind_assoc]
  cases s
  simp only [Option.bind_eq_some_iff, Option.pure_def, Option.some.injEq, mk.injEq]
  constructor
  · rintro ⟨_, h0, _, h1, _, h2, _, h3, _, h4, rfl, rfl, rfl, rfl, rfl⟩
    exact ⟨h0, h1, h2, h3, h4⟩
  · rintro ⟨h0, h1, h2, h3, h4⟩
    exact ⟨_, h0, _, h1, _, h2, _, h3, _, h4, rfl, rfl, rfl, rfl, rfl⟩

theorem Settings.ofSetting?_eq_some_iff (home : Option String) (hroot : root.isTable = true)
    (hlist : ∀ part ∈ parts, ∀ items, (root.at? [part]).getD .empty ≠ .list items)
    {s : Settings} : ofSetting? home root = some s ↔
      (∀ part ∈ parts, ((root.at? [part]).getD .empty).isTable = true) ∧
        ∀ k : Key, k.accepted.Accepts ((root.at? k.place).getD (k.fallback home)) ∧
          s.get k = (root.at? k.place).getD (k.fallback home) := by
  have htakes : ∀ k : Key, k.accepted.Accepts ((root.at? k.place).getD (k.fallback home)) ∧
      s.get k = (root.at? k.place).getD (k.fallback home) ↔
        k.Takes home ((root.at? [k.part]).getD .empty) (s.get k) := fun k => by
    rw [Key.Takes, Setting.at?_getD_empty, Key.place]
  simp only [parts, sections, List.map_cons, List.map_nil, List.forall_mem_cons] at hlist ⊢
  obtain ⟨hlist0, hlist1, hlist2, hlist3, hlist4, -⟩ := hlist
  rw [ofSetting?_eq_some_iff_sections,
    Setting.exists_section_iff hroot 0 hlist0 fun hs =>
      ServerSettings.ofSetting?_eq_some_iff home hs,
    Setting.exists_section_iff hroot 1 hlist1 fun hs =>
      LoggingSettings.ofSetting?_eq_some_iff home hs,
    Setting.exists_section_iff hroot 2 hlist2 fun hs =>
      StorageSettings.ofSetting?_eq_some_iff hs,
    Setting.exists_section_iff hroot 3 hlist3 fun hs =>
      BrokerSettings.ofSetting?_eq_some_iff home hs,
    Setting.exists_section_iff hroot 4 hlist4 fun hs =>
      SchedulerSettings.ofSetting?_eq_some_iff home hs,
    forall_congr' htakes, forall_key]
  constructor
  · rintro ⟨⟨ht0, h0⟩, ⟨ht1, h1⟩, ⟨ht2, h2⟩, ⟨ht3, h3⟩, ht4, h4⟩
    exact ⟨⟨ht0, ht1, ht2, ht3, ht4, nofun⟩, h0, h1, h2, h3, h4⟩
  · rintro ⟨⟨ht0, ht1, ht2, ht3, ht4, -⟩, h0, h1, h2, h3, h4⟩
    exact ⟨⟨ht0, h0⟩, ⟨ht1, h1⟩, ⟨ht2, h2⟩, ⟨ht3, h3⟩, ht4, h4⟩

end Roots

section Choices

variable {v : Setting}

theorem Setting.Kind.Accepts.exists_text (h : Kind.text.Accepts v) : ∃ t, .text t = v := by
  cases v with
  | text t => exact ⟨t, rfl⟩
  | _ => cases h

theorem Setting.Kind.Accepts.exists_name (h : (Kind.oneOf ["memory", "sqlite"]).Accepts v) :
    ∃ kind : StorageKind, .text kind.name = v := by
  cases v with
  | text t =>
    rcases List.mem_pair.1 h with rfl | rfl
    · exact ⟨.memory, rfl⟩
    · exact ⟨.database, rfl⟩
  | _ => cases h

theorem Setting.Kind.Accepts.exists_integer {limit : Nat} (h : (Kind.below limit).Accepts v) :
    ∃ n : Nat, .integer n = v := by
  cases v with
  | integer n =>
    obtain ⟨m, rfl⟩ := Int.eq_ofNat_of_zero_le h.1
    exact ⟨m, rfl⟩
  | _ => cases h

/-- Any choice of values that the keys accept is a configuration. -/
theorem Settings.exists_get_eq {f : Key → Setting} (h : ∀ k : Key, k.accepted.Accepts (f k)) :
    ∃ s : Settings, ∀ k, s.get k = f k := by
  obtain ⟨bind, hbind⟩ := (h .bind).exists_text
  obtain ⟨port, hport⟩ := (h .port).exists_integer
  obtain ⟨level, hlevel⟩ := (h .level).exists_text
  obtain ⟨kind, hkind⟩ := (h .kind).exists_name
  obtain ⟨path, hpath⟩ := (h .path).exists_text
  obtain ⟨url, hurl⟩ := (h .url).exists_text
  obtain ⟨stream, hstream⟩ := (h .stream).exists_text
  obtain ⟨group, hgroup⟩ := (h .group).exists_text
  obtain ⟨consumer, hconsumer⟩ := (h .consumer).exists_text
  obtain ⟨attempts, hattempts⟩ := (h .maxAttempts).exists_integer
  obtain ⟨backoff, hbackoff⟩ := (h .retryBackoffMs).exists_integer
  obtain ⟨length, hlength⟩ := (h .maxLength).exists_integer
  obtain ⟨block, hblock⟩ := (h .blockMs).exists_integer
  obtain ⟨interval, hinterval⟩ := (h .intervalSecs).exists_integer
  obtain ⟨retention, hretention⟩ := (h .retentionSecs).exists_integer
  exact ⟨⟨⟨bind, port⟩, ⟨level⟩, ⟨kind, path⟩,
    ⟨url, stream, group, consumer, attempts, backoff, length, block⟩, ⟨interval, retention⟩⟩,
    forall_key.2 ⟨⟨hbind, hport⟩, hlevel, ⟨hkind, hpath⟩,
      ⟨hurl, hstream, hgroup, hconsumer, hattempts, hbackoff, hlength, hblock⟩, hinterval,
      hretention⟩⟩

end Choices

end Datebook
