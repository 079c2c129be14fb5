/-!
# The grammar of number tokens, for its readers

The grammar as a user can ask to see it: a regular expression in the usual
spelling, with its parts written out and with remarks. It is text to be shown;
what the calculator goes by is `Rpn.Number.literal`.
-/

namespace Rpn.Number

/-- Lines as one text. -/
def joinLines (rows : List String) : String :=
  "\n".intercalate rows

/-- The whole part of a decimal. -/
def integralText : String :=
  joinLines [
    "",
    "                # DO NOT REPEAT ME! I REPEAT MYSELF INTERNALLY!",
    "                (?:",
    "                    # 1, 12, or the 1 in 1_200.",
    "                    \\d\x7b1,3\x7d",
    "                    (?:",
    "                        # The 4, 45, etc. in 1234, 12345, etc.",
    "                        \\d",
    "                        |",
    "                        # Thousands separators",
    "                        (?:",
    "                            _\\d\x7b3\x7d",
    "                        )",
    "                    )*",
    "                )",
    "                "
  ]

/-- The fraction of a decimal. -/
def fractionalText : String :=
  joinLines [
    "",
    "                  # DO NOT REPEAT ME! I REPEAT MYSELF INTERNALLY!",
    "                  (?:",
    "                      \\d+",
    "                      |",
    "                      (?:",
    "                          \\d\x7b3\x7d",
    "                          (?:",
    "                              _\\d\x7b3\x7d",
    "                          )*",
    "                          (?:",
    "                              _\\d\x7b1,2\x7d",
    "                          )?",
    "                      )",
    "                  )",
    "                  "
  ]

/-- The exponent of a decimal. -/
def exponentText : String :=
  joinLines [
    "",
    "                (?:",
    "                    [eE]",
    "                    [+-]?",
    "                    \\d+",
    "                )",
    "                "
  ]

/-- The words for what is not finite. -/
def specialText : String :=
  joinLines [
    "",
    "               (?i:",
    "                   inf(?:inity)?",
    "                   |",
    "                   nan",
    "               )",
    "               "
  ]

/-- The whole grammar. -/
def grammarText : String :=
  joinLines [
    "",
    "              # ASCII sign only; U+2212 is the subtraction operator.",
    "              [+-]?",
    "              (?:",
    "                  (?:",
    "                      # 1, 12, 1_200, 1_200. (notice trailing dot), 1.3",
    "                      " ++ integralText,
    "                      (?:",
    "                          \\.",
    "                          " ++ fractionalText ++ "?",
    "                      )?",
    "                  )|(?:",
    "                      # .2, 0.2, 0.200_200 but not 0.2_200",
    "                      " ++ integralText ++ "?",
    "                      \\.",
    "                      " ++ fractionalText,
    "                  )",
    "              )",
    "              " ++ exponentText ++ "?",
    "              |",
    "              [+-]?",
    "              " ++ specialText,
    "              "
  ]

end Rpn.Number
