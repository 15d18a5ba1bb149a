/-!
# Starter definitions

The definitions file of a new project: a repository of articles, a list that shows each of them, a
stack, and a line of text; and a method that gives the title of an article.

## Main definitions

* `starterDefinitions` — the text of the file.
-/

namespace SlotTree.Cli

/-- The lines of the starter definitions. -/
def starterLines : List String :=
  [
    "\x7b",
    "  \"nodes\": [",
    "    \x7b",
    "      \"name\": \"@demo/bloc::ArticleRepository\",",
    "      \"outputs\": \x7b",
    "        \"articles\": \x7b \"type\": \x7b \"kind\": \"array\", \"element\": \x7b \"kind\": \"entity\", \"name\": \"Article\" \x7d \x7d \x7d",
    "      \x7d,",
    "      \"slots\": \x7b \"child\": \x7b\x7d \x7d",
    "    \x7d,",
    "    \x7b",
    "      \"name\": \"@demo/mui::List\",",
    "      \"inputs\": \x7b",
    "        \"items\": \x7b \"type\": \x7b \"kind\": \"array\", \"element\": \x7b \"kind\": \"entity\", \"name\": \"Article\" \x7d \x7d \x7d",
    "      \x7d,",
    "      \"outputs\": \x7b",
    "        \"item\": \x7b \"type\": \x7b \"kind\": \"entity\", \"name\": \"Article\" \x7d, \"slot\": \"renderItem\" \x7d",
    "      \x7d,",
    "      \"slots\": \x7b \"renderItem\": \x7b\x7d \x7d",
    "    \x7d,",
    "    \x7b",
    "      \"name\": \"@demo/mui::Stack\",",
    "      \"slots\": \x7b",
    "        \"children\": \x7b \"inputs\": \x7b \"grow\": \x7b \"type\": \x7b \"kind\": \"number\" \x7d \x7d \x7d \x7d",
    "      \x7d",
    "    \x7d,",
    "    \x7b",
    "      \"name\": \"@demo/mui::Typography\",",
    "      \"inputs\": \x7b",
    "        \"text\": \x7b \"type\": \x7b \"kind\": \"string\" \x7d \x7d",
    "      \x7d",
    "    \x7d",
    "  ],",
    "  \"extensionMethods\": [",
    "    \x7b",
    "      \"name\": \"Article::title\",",
    "      \"selfType\": \x7b \"kind\": \"entity\", \"name\": \"Article\" \x7d,",
    "      \"returns\": \x7b \"kind\": \"string\" \x7d",
    "    \x7d",
    "  ]",
    "\x7d"
  ]

/-- The text of the starter definitions. -/
def starterDefinitions : String := String.join (starterLines.map fun l => l ++ "\n")

end SlotTree.Cli
