import LazyMatch.Text.Split

/-!
# What characters are made of

Among the characters of identifiers some are variants of others, such as letters in a bold or wide
form, or several of them run together, and some are a character with a mark on it. The tables are
those of Unicode 14, and list characters of identifiers only. The syllables of Hangul are made of
their letters by a rule.

* `Text.simpler?` is what a variant stands for;
* `Text.whole?` joins a mark to a character, `Text.parts?` takes it off again.
-/

namespace LazyMatch.Text

/-! ### Variants -/

/-- Variants of single characters: where a run of them begins and what each stands for. A space is
in place of what is no variant. -/
def variants : List (Nat × String) :=
  [(0xAA, "a"), (0xB5, "μ"), (0xBA, "o"), (0x17F, "s"), (0x2B0, "hɦjrɹɻʁwy"), (0x2E0, "ɣlsxʕ"),
    (0x340, "̀́ ̓"), (0x374, "ʹ"), (0x387, "·"), (0x3D0, "βθΥΎΫφπ"), (0x3F0, "κρς Θε"),
    (0x3F9, "Σ"), (0x10FC, "ნ"),
    (0x1D2C, "AÆB DEƎGHIJKLMN OȢPRTUWaɐɑᴂbdeəɛɜg kmŋoɔᴖᴗptuᴝɯvᴥβγδφχiruvβγρφχ"), (0x1D78, "н"),
    (0x1D9B, "ɒcɕðɜfɟɡɥɨɩɪᵻʝɭᶅʟɱɰɲɳɴɵɸʂʃƫʉʊᴜʋʌzʐʑʒθ"), (0x1E9B, "ṡ"), (0x1F71, "ά έ ή ί ό ύ ώ"),
    (0x1FBB, "Ά"), (0x1FBE, "ι"), (0x1FC9, "Έ Ή"), (0x1FD3, "ΐ"), (0x1FDB, "Ί"), (0x1FE3, "ΰ"),
    (0x1FEB, "Ύ"), (0x1FF9, "Ό Ώ"), (0x2071, "i"), (0x207F, "n"), (0x2090, "aeoxəhklmnpst"),
    (0x2102, "C"), (0x2107, "Ɛ"), (0x210A, "gHHHhħIILl N"), (0x2119, "PQRRR"),
    (0x2124, "Z Ω Z KÅBC eEF Moאבגדi"), (0x213C, "πγΓΠ"), (0x2145, "Ddeij"), (0x2160, "I"),
    (0x2164, "V"), (0x2169, "X"), (0x216C, "LCDMi"), (0x2174, "v"), (0x2179, "x"), (0x217C, "lcdm"),
    (0x2C7C, "jV"), (0x2D6F, "ⵡ"), (0x3038, "十卄卅"), (0x3131, "ᄀᄁᆪᄂᆬᆭᄃᄄᄅᆰᆱᆲᆳᆴᆵᄚᄆᄇᄈᄡᄉᄊᄋᄌᄍᄎᄏᄐᄑᄒ"),
    (0x314F, "ᅡᅢᅣᅤᅥᅦᅧᅨᅩᅪᅫᅬᅭᅮᅯᅰᅱᅲᅳᅴᅵᅠᄔᄕᇇᇈᇌᇎᇓᇗᇙᄜᇝᇟᄝᄞᄠᄢᄣᄧᄩᄫᄬᄭᄮᄯᄲᄶᅀᅇᅌᇱᇲᅗᅘᅙᆄᆅᆈᆑᆒᆔᆞᆡ"), (0xA69C, "ъь"),
    (0xA770, "ꝯ"), (0xA7F2, "CFQ"), (0xA7F8, "Ħœ"), (0xAB5C, "ꜧꬷɫꭒ"), (0xAB69, "ʍ"),
    (0xF900, "豈更車賈滑串句龜龜契金喇奈懶癩羅蘿螺裸邏樂洛烙珞落酪駱亂卵欄爛蘭鸞嵐濫藍襤拉臘蠟廊朗浪狼郎來冷勞擄櫓爐盧老蘆虜路露魯鷺碌祿綠菉錄"),
    (0xF940, "鹿論壟弄籠聾牢磊賂雷壘屢樓淚漏累縷陋勒肋凜凌稜綾菱陵讀拏樂諾丹寧怒率異北磻便復不泌數索參塞省葉說殺辰沈拾若掠略亮兩凉梁糧良諒量勵"),
    (0xF980, "呂女廬旅濾礪閭驪麗黎力曆歷轢年憐戀撚漣煉璉秊練聯輦蓮連鍊列劣咽烈裂說廉念捻殮簾獵令囹寧嶺怜玲瑩羚聆鈴零靈領例禮醴隸惡了僚寮尿料樂"),
    (0xF9C0, "燎療蓼遼龍暈阮劉杻柳流溜琉留硫紐類六戮陸倫崙淪輪律慄栗率隆利吏履易李梨泥理痢罹裏裡里離匿溺吝燐璘藺隣鱗麟林淋臨立笠粒狀炙識什茶刺"),
    (0xFA00, "切度拓糖宅洞暴輻行降見廓兀嗀"), (0xFA10, "塚 晴"), (0xFA15, "凞猪益礼神祥福靖精羽 蘒 諸"), (0xFA25, "逸都"),
    (0xFA2A, "飯飼館鶴郞隷侮僧免勉勤卑喝嘆器塀墨層屮悔慨憎懲敏既暑梅海渚漢煮爫琢碑社祉祈祐祖祝禍禎穀突節練縉繁署者臭艹艹著褐視謁謹賓贈辶逸難響"), (0xFA6A, "頻恵𤋮舘"),
    (0xFA70, "並况全侀充冀勇勺喝啕喙嗢塚墳奄奔婢嬨廒廙彩徭惘慎愈憎慠懲戴揄搜摒敖晴朗望杖歹殺流滛滋漢瀞煮瞧爵犯猪瑱甆画瘝瘟益盛直睊着磌窱節类絛"),
    (0xFAB0, "練缾者荒華蝹襁覆視調諸請謁諾諭謹變贈輸遲醙鉶陼難靖韛響頋頻鬒龜𢡊𢡄𣏕㮝䀘䀹𥉉𥳐𧻓齃龎"), (0xFB20, "עאדהכלםרת"),
    (0xFB50, "ٱٱٻٻٻٻپپپپڀڀڀڀٺٺٺٺٿٿٿٿٹٹٹٹڤڤڤڤڦڦڦڦڄڄڄڄڃڃڃڃچچچچڇڇڇڇڍڍڌڌڎڎڈڈژژڑڑکک"),
    (0xFB90, "ککگگگگڳڳڳڳڱڱڱڱںںڻڻڻڻۀۀہہہہھھھھےےۓۓ"), (0xFBD3, "ڭڭڭڭۇۇۆۆۈۈ ۋۋۅۅۉۉېېېېىى"),
    (0xFBFC, "یییی"), (0xFE33, "__"), (0xFE4D, "___"),
    (0xFE80, "ءآآأأؤؤإإئئئئااببببةةتتتتثثثثججججححححخخخخددذذررززسسسسششششصصصصضضض"),
    (0xFEC0, "ضططططظظظظععععغغغغففففققققككككللللممممننننههههووىىيييي"), (0xFF10, "0123456789"),
    (0xFF21, "ABCDEFGHIJKLMNOPQRSTUVWXYZ"), (0xFF3F, "_ abcdefghijklmnopqrstuvwxyz"),
    (0xFF66, "ヲァィゥェォャュョッーアイウエオカキクケコサシスセソタチツテトナニヌネノハヒフヘホマミムメモヤユヨラリルレロワン゙゚ᅠᄀᄁᆪᄂᆬ"),
    (0xFFA6, "ᆭᄃᄄᄅᆰᆱᆲᆳᆴᆵᄚᄆᄇᄈᄡᄉᄊᄋᄌᄍᄎᄏᄐᄑᄒ"), (0xFFC2, "ᅡᅢᅣᅤᅥᅦ"), (0xFFCA, "ᅧᅨᅩᅪᅫᅬ"),
    (0xFFD2, "ᅭᅮᅯᅰᅱᅲ"), (0xFFDA, "ᅳᅴᅵ"),
    (0x10781, "ːˑæʙɓ ʣꭦʥʤɖɗᶑɘɞʩɤɢɠʛħʜɧʄʪʫɬ𝼄ꞎɮ𝼅ʎ𝼆øɶɷqɺ𝼈ɽɾʀʨʦꭧʧʈⱱ ʏʡʢʘǀǁǂ𝼊𝼞"),
    (0x1D400, "ABCDEFGHIJKLMNOPQRSTUVWXYZabcdefghijklmnopqrstuvwxyzABCDEFGHIJKL"),
    (0x1D440, "MNOPQRSTUVWXYZabcdefg ijklmnopqrstuvwxyzABCDEFGHIJKLMNOPQRSTUVWX"),
    (0x1D480, "YZabcdefghijklmnopqrstuvwxyzA CD"), (0x1D4A2, "G"), (0x1D4A5, "JK"),
    (0x1D4A9, "NOPQ STUVWXYZabcd f hijklmn pqrstuvwxyzABCDEFGHIJKLMNOPQRSTUVWXY"),
    (0x1D4E9, "ZabcdefghijklmnopqrstuvwxyzAB DEFG"),
    (0x1D50D, "JKLMNOPQ STUVWXY abcdefghijklmnopqrstuvwxyzAB DEFG IJKLM O"),
    (0x1D54A, "STUVWXY abcdefghijklmnopqrstuvwxyzABCDEFGHIJKLMNOPQRSTUVWXYZabcd"),
    (0x1D58A, "efghijklmnopqrstuvwxyzABCDEFGHIJKLMNOPQRSTUVWXYZabcdefghijklmnop"),
    (0x1D5CA, "qrstuvwxyzABCDEFGHIJKLMNOPQRSTUVWXYZabcdefghijklmnopqrstuvwxyzAB"),
    (0x1D60A, "CDEFGHIJKLMNOPQRSTUVWXYZabcdefghijklmnopqrstuvwxyzABCDEFGHIJKLMN"),
    (0x1D64A, "OPQRSTUVWXYZabcdefghijklmnopqrstuvwxyzABCDEFGHIJKLMNOPQRSTUVWXYZ"),
    (0x1D68A, "abcdefghijklmnopqrstuvwxyzıȷ"),
    (0x1D6A8, "ΑΒΓΔΕΖΗΘΙΚΛΜΝΞΟΠΡΘΣΤΥΦΧΨΩ αβγδεζηθικλμνξοπρςστυφχψω εθκφρπΑΒΓΔΕΖ"),
    (0x1D6E8, "ΗΘΙΚΛΜΝΞΟΠΡΘΣΤΥΦΧΨΩ αβγδεζηθικλμνξοπρςστυφχψω εθκφρπΑΒΓΔΕΖΗΘΙΚΛΜ"),
    (0x1D728, "ΝΞΟΠΡΘΣΤΥΦΧΨΩ αβγδεζηθικλμνξοπρςστυφχψω εθκφρπΑΒΓΔΕΖΗΘΙΚΛΜΝΞΟΠΡΘ"),
    (0x1D768, "ΣΤΥΦΧΨΩ αβγδεζηθικλμνξοπρςστυφχψω εθκφρπΑΒΓΔΕΖΗΘΙΚΛΜΝΞΟΠΡΘΣΤΥΦΧΨ"),
    (0x1D7A8, "Ω αβγδεζηθικλμνξοπρςστυφχψω εθκφρπϜϝ"),
    (0x1D7CE, "01234567890123456789012345678901234567890123456789"),
    (0x1EE00, "ابجد وزحطيكلمنسعفصقرشتثخذضظغٮںڡٯ بج ه"), (0x1EE27, "ح يكلمنسعفصق شتثخ ض غ"),
    (0x1EE42, "ج"), (0x1EE47, "ح ي ل نسع صق ش"), (0x1EE57, "خ ض غ ں ٯ بج ه"),
    (0x1EE67, "حطيك منسعفصق شتثخ ضظغٮ ڡ ابجدهوزحطي لمنسعفصقرشتثخذضظغ"),
    (0x1EEA1, "بجد وزحطي لمنسعفصقرشتثخذضظغ"), (0x1FBF0, "0123456789"),
    (0x2F800, "丽丸乁𠄢你侮侻倂偺備僧像㒞𠘺免兔兤具𠔜㒹內再𠕋冗冤仌冬况𩇟凵刃㓟刻剆割剷㔕勇勉勤勺包匆北卉卑博即卽卿卿卿𠨬灰及叟𠭣叫叱吆咞吸呈周"),
    (0x2F840, "咢哶唐啓啣善善喙喫喳嗂圖嘆圗噑噴切壮城埴堍型堲報墬𡓤売壷夆多夢奢𡚨𡛪姬娛娧姘婦㛮㛼嬈嬾嬾𡧈寃寘寧寳𡬘寿将当尢㞁屠屮峀岍𡷤嵃𡷦嵮嵫"),
    (0x2F880, "嵼巡巢㠯巽帨帽幩㡢𢆃㡼庰庳庶廊𪎒廾𢌱𢌱舁弢弢㣇𣊸𦇚形彫㣣徚忍志忹悁㤺㤜悔𢛔惇慈慌慎慌慺憎憲憤憯懞懲懶成戛扝抱拔捐𢬌挽拼捨掃揤𢯱搢"),
    (0x2F8C0, "揅掩㨮摩摾撝摷㩬敏敬𣀊旣書晉㬙暑㬈㫤冒冕最暜肭䏙朗望朡杞杓𣏃㭉柺枅桒梅𣑭梎栟椔㮝楂榣槪檨𣚣櫛㰘次𣢧歔㱎歲殟殺殻𣪍𡴋𣫺汎𣲼沿泍汧洖"),
    (0x2F900, "派海流浩浸涅𣴞洴港湮㴳滋滇𣻑淹潮𣽞𣾎濆瀹瀞瀛㶖灊災灷炭𠔥煅𤉣熜𤎫爨爵牐𤘈犀犕𤜵𤠔獺王㺬玥㺸㺸瑇瑜瑱璅瓊㼛甤𤰶甾𤲒異𢆟瘐𤾡𤾸𥁄㿼䀈"),
    (0x2F940, "直𥃳𥃲𥄙𥄳眞真真睊䀹瞋䁆䂖𥐝硎碌磌䃣𥘦祖𥚚𥛅福秫䄯穀穊穏𥥼𥪧𥪧竮䈂𥮫篆築䈧𥲀糒䊠糨糣紀𥾆絣䌁緇縂繅䌴𦈨𦉇䍙𦋙罺𦌾羕翺者𦓚𦔣聠𦖨聰"),
    (0x2F980, "𣍟䏕育脃䐋脾媵𦞧𦞵𣎓𣎜舁舄辞䑫芑芋芝劳花芳芽苦𦬼若茝荣莭茣莽菧著荓菊菌菜𦰶𦵫𦳕䔫蓱蓳蔖𧏊蕤𦼬䕝䕡𦾱𧃒䕫虐虜虧虩蚩蚈蜎蛢蝹蜨蝫螆䗗"),
    (0x2F9C0, "蟡蠁䗹衠衣𧙧裗裞䘵裺㒻𧢮𧥦䚾䛇誠諭變豕𧲨貫賁贛起𧼯𠠄跋趼跰𠣞軔輸𨗒𨗭邔郱鄑𨜮鄛鈸鋗鋘鉼鏹鐕𨯺開䦕閷𨵷䧦雃嶲霣𩅅𩈚䩮䩶韠𩐊䪲𩒖頋頋"),
    (0x2FA00, "頩𩖶飢䬳餩馧駂駾䯎𩬰鬒鱀鳽䳎䳭鵧𪃎䳸𪄅𪈎𪊑麻䵖黹黾鼅鼏鼖鼻𪘀")]

/-- Variants of several characters: where a run of them begins and what each stands for, separated
by spaces. -/
def ligatures : List (Nat × String) :=
  [(0x132, "IJ ij"), (0x13F, "L· l·"), (0x149, "ʼn"), (0x1C4, "DŽ Dž dž LJ Lj lj NJ Nj nj"),
    (0x1F1, "DZ Dz dz"), (0x344, "̈́"), (0x587, "եւ"), (0x675, "اٴ وٴ ۇٴ يٴ"),
    (0x958, "क़ ख़ ग़ ज़ ड़ ढ़ फ़ य़"), (0x9DC, "ড় ঢ়"), (0x9DF, "য়"), (0xA33, "ਲ਼"),
    (0xA36, "ਸ਼"), (0xA59, "ਖ਼ ਗ਼ ਜ਼"), (0xA5E, "ਫ਼"), (0xB5C, "ଡ଼ ଢ଼"), (0xE33, "ํา"),
    (0xEB3, "ໍາ"), (0xEDC, "ຫນ ຫມ"), (0xF43, "གྷ"), (0xF4D, "ཌྷ"), (0xF52, "དྷ"), (0xF57, "བྷ"),
    (0xF5C, "ཛྷ"), (0xF69, "ཀྵ"), (0xF73, "ཱི"), (0xF75, "ཱུ ྲྀ ྲཱྀ ླྀ ླཱྀ"), (0xF81, "ཱྀ"),
    (0xF93, "ྒྷ"), (0xF9D, "ྜྷ"), (0xFA2, "ྡྷ"), (0xFA7, "ྦྷ"), (0xFAC, "ྫྷ"), (0xFB9, "ྐྵ"),
    (0x1E9A, "aʾ"), (0x2161, "II III IV"), (0x2165, "VI VII VIII IX"), (0x216A, "XI XII"),
    (0x2171, "ii iii iv"), (0x2175, "vi vii viii ix"), (0x217A, "xi xii"), (0x309F, "より"),
    (0x30FF, "コト"), (0xFB00, "ff fi fl ffi ffl st st"), (0xFB13, "մն մե մի վն մխ"), (0xFB1D, "יִ"),
    (0xFB1F, "ײַ"), (0xFB2A, "שׁ שׂ שּׁ שּׂ אַ אָ אּ בּ גּ דּ הּ וּ זּ"),
    (0xFB38, "טּ יּ ךּ כּ לּ"), (0xFB3E, "מּ"), (0xFB40, "נּ סּ"), (0xFB43, "ףּ פּ"),
    (0xFB46, "צּ קּ רּ שּ תּ וֹ בֿ כֿ פֿ אל"), (0xFBDD, "ۇٴ"),
    (0xFBEA, "ئا ئا ئە ئە ئو ئو ئۇ ئۇ ئۆ ئۆ ئۈ ئۈ ئې ئې ئې ئى ئى ئى"),
    (0xFC00, "ئج ئح ئم ئى ئي بج بح بخ بم بى بي تج تح تخ تم تى تي ثج ثم ثى ثي جح جم حج"),
    (0xFC18, "حم خج خح خم سج سح سخ سم صح صم ضج ضح ضخ ضم طح طم ظم عج عم غج غم فج فح فخ"),
    (0xFC30, "فم فى في قح قم قى قي كا كج كح كخ كل كم كى كي لج لح لخ لم لى لي مج مح مخ"),
    (0xFC48, "مم مى مي نج نح نخ نم نى ني هج هم هى هي يج يح يخ يم يى يي ذٰ رٰ ىٰ"),
    (0xFC64, "ئر ئز ئم ئن ئى ئي بر بز بم بن بى بي تر تز تم تن تى تي ثر ثز ثم ثن ثى ثي"),
    (0xFC7C, "فى في قى قي كا كل كم كى كي لم لى لي ما مم نر نز نم نن نى ني ىٰ ير يز يم"),
    (0xFC94, "ين يى يي ئج ئح ئخ ئم ئه بج بح بخ بم به تج تح تخ تم ته ثم جح جم حج حم خج"),
    (0xFCAC, "خم سج سح سخ سم صح صخ صم ضج ضح ضخ ضم طح ظم عج عم غج غم فج فح فخ فم قح قم"),
    (0xFCC4, "كج كح كخ كل كم لج لح لخ لم له مج مح مخ مم نج نح نخ نم نه هج هم هٰ يج يح"),
    (0xFCDC, "يخ يم يه ئم ئه بم به تم ته ثم ثه سم سه شم شه كل كم لم نم نه يم يه ـَّ"),
    (0xFCF3, "ـُّ ـِّ طى طي عى عي غى غي سى سي شى شي حى حي جى جي خى خي صى صي ضى ضي شج"),
    (0xFD0A, "شح شخ شم شر سر صر ضر طى طي عى عي غى غي سى سي شى شي حى حي جى جي خى خي صى"),
    (0xFD22, "صي ضى ضي شج شح شخ شم شر سر صر ضر شج شح شخ شم سه شه طم سج سح سخ شج شح شخ"),
    (0xFD3A, "طم ظم اً اً"),
    (0xFD50, "تجم تحج تحج تحم تخم تمج تمح تمخ جمح جمح حمي حمى سحج سجح سجى سمح سمح سمج"),
    (0xFD62, "سمم سمم صحح صحح صمم شحم شحم شجي شمخ شمخ شمم شمم ضحى ضخم ضخم طمح طمح طمم"),
    (0xFD74, "طمي عجم عمم عمم عمى غمم غمي غمى فخم فخم قمح قمم لحم لحي لحى لجج لجج لخم"),
    (0xFD86, "لخم لمح لمح محج محم محي مجح مجم مخج مخم"),
    (0xFD92, "مجخ همج همم نحم نحى نجم نجم نجى نمي نمى يمم يمم بخي تجي تجى تخي تخى تمي"),
    (0xFDA4, "تمى جمي جحى جمى سخى صحي شحي ضحي لجي لمي يحي يجي يمي ممي قمي نحي قمح لحم"),
    (0xFDB6, "عمي كمي نجح مخي لجم كمم لجم نجح جحي حجي مجي فمي بحي كمم عجم صمم سخي نجي"),
    (0xFDF0, "صلے قلے الله اكبر محمد صلعم رسول عليه وسلم صلى"), (0xFE71, "ـً"), (0xFE77, "ـَ"),
    (0xFE79, "ـُ"), (0xFE7B, "ـِ"), (0xFE7D, "ـّ"), (0xFE7F, "ـْ"),
    (0xFEF5, "لآ لآ لأ لأ لإ لإ لا لا")]

/-- What a variant stands for. -/
def simpler? (c : Char) : Option (List Char) :=
  let variant := variants.findSome? fun (first, others) =>
    if first ≤ c.toNat then others.toList[c.toNat - first]? else none
  let ligature := ligatures.findSome? fun (first, others) =>
    if first ≤ c.toNat then (split ' ' others.toList)[c.toNat - first]? else none
  ((variant.filter (· ≠ ' ')).map ([·])).or ligature

/-! ### Characters with a mark -/

/-- Marks, each with characters and what these are with the mark on them. -/
def accents : List (Nat × String × String) :=
  [(0x300, "AEIOUaeiouÜüNnЕИеиĒēŌōWwÂâĂăÊêÔôƠơƯư", "ÀÈÌÒÙàèìòùǛǜǸǹЀЍѐѝḔḕṐṑẀẁẦầẰằỀềỒồỜờỪừ"),
    (0x300, "YyἀἁἈἉἐἑἘἙἠἡἨἩἰἱἸἹὀὁὈὉὐὑὙὠὡὨὩαεηιουω", "ỲỳἂἃἊἋἒἓἚἛἢἣἪἫἲἳἺἻὂὃὊὋὒὓὛὢὣὪὫὰὲὴὶὸὺὼ"),
    (0x300, "ΑΕΗϊΙϋΥΟΩ", "ᾺῈῊῒῚῢῪῸῺ"),
    (0x301, "AEIOUYaeiouyCcLlNnRrSsZzÜüGgÅåÆæØøΑΕ", "ÁÉÍÓÚÝáéíóúýĆćĹĺŃńŔŕŚśŹźǗǘǴǵǺǻǼǽǾǿΆΈ"),
    (0x301, "ΗΙΟΥΩϊαεηιϋουωϒГКгкÇçĒēÏïKkMmÕõŌōPpŨ", "ΉΊΌΎΏΐάέήίΰόύώϓЃЌѓќḈḉḖḗḮḯḰḱḾḿṌṍṒṓṔṕṸ"),
    (0x301, "ũWwÂâĂăÊêÔôƠơƯưἀἁἈἉἐἑἘἙἠἡἨἩἰἱἸἹὀὁὈὉὐ", "ṹẂẃẤấẮắẾếỐốỚớỨứἄἅἌἍἔἕἜἝἤἥἬἭἴἵἼἽὄὅὌὍὔ"),
    (0x301, "ὑὙὠὡὨὩ", "ὕὝὤὥὬὭ"),
    (0x302, "AEIOUaeiouCcGgHhJjSsWwYyZzẠạẸẹỌọ", "ÂÊÎÔÛâêîôûĈĉĜĝĤĥĴĵŜŝŴŵŶŷẐẑẬậỆệỘộ"),
    (0x303, "ANOanoIiUuVvÂâĂăEeÊêÔôƠơƯưYy", "ÃÑÕãñõĨĩŨũṼṽẪẫẴẵẼẽỄễỖỗỠỡỮữỸỹ"),
    (0x304, "AaEeIiOoUuÜüÄäȦȧÆæǪǫÖöÕõȮȯYyИиУуGgḶḷ", "ĀāĒēĪīŌōŪūǕǖǞǟǠǡǢǣǬǭȪȫȬȭȰȱȲȳӢӣӮӯḠḡḸḹ"),
    (0x304, "ṚṛαΑιΙυΥ", "ṜṝᾱᾹῑῙῡῩ"),
    (0x306, "AaEeGgIiOoUuУИиуЖжАаЕеȨȩẠạαΑιΙυΥ", "ĂăĔĕĞğĬĭŎŏŬŭЎЙйўӁӂӐӑӖӗḜḝẶặᾰᾸῐῘῠῨ"),
    (0x307, "CcEeGgIZzAaOoBbDdFfHhMmNnPpRrSsŚśŠšṢ", "ĊċĖėĠġİŻżȦȧȮȯḂḃḊḋḞḟḢḣṀṁṄṅṖṗṘṙṠṡṤṥṦṧṨ"),
    (0x307, "ṣTtWwXxYyſ", "ṩṪṫẆẇẊẋẎẏẛ"),
    (0x308, "AEIOUaeiouyYΙΥιυϒЕІеіАаӘәЖжЗзИиОоӨөЭ", "ÄËÏÖÜäëïöüÿŸΪΫϊϋϔЁЇёїӒӓӚӛӜӝӞӟӤӥӦӧӪӫӬ"),
    (0x308, "эУуЧчЫыHhÕõŪūWwXxt", "ӭӰӱӴӵӸӹḦḧṎṏṺṻẄẅẌẍẗ"),
    (0x309, "AaÂâĂăEeÊêIiOoÔôƠơUuƯưYy", "ẢảẨẩẲẳẺẻỂểỈỉỎỏỔổỞởỦủỬửỶỷ"), (0x30A, "AaUuwy", "ÅåŮůẘẙ"),
    (0x30B, "OoUuУу", "ŐőŰűӲӳ"),
    (0x30C, "CcDdEeLlNnRrSsTtZzAaIiOoUuÜüGgKkƷʒjH", "ČčĎďĚěĽľŇňŘřŠšŤťŽžǍǎǏǐǑǒǓǔǙǚǦǧǨǩǮǯǰȞ"),
    (0x30C, "h", "ȟ"), (0x30F, "AaEeIiOoRrUuѴѵ", "ȀȁȄȅȈȉȌȍȐȑȔȕѶѷ"),
    (0x311, "AaEeIiOoRrUu", "ȂȃȆȇȊȋȎȏȒȓȖȗ"), (0x313, "αΑεΕηΗιΙοΟυωΩρ", "ἀἈἐἘἠἨἰἸὀὈὐὠὨῤ"),
    (0x314, "αΑεΕηΗιΙοΟυΥωΩρΡ", "ἁἉἑἙἡἩἱἹὁὉὑὙὡὩῥῬ"), (0x31B, "OoUu", "ƠơƯư"),
    (0x323, "BbDdHhKkLlMmNnRrSsTtVvWwZzAaEeIiOoƠơ", "ḄḅḌḍḤḥḲḳḶḷṂṃṆṇṚṛṢṣṬṭṾṿẈẉẒẓẠạẸẹỊịỌọỢợ"),
    (0x323, "UuƯưYy", "ỤụỰựỴỵ"), (0x324, "Uu", "Ṳṳ"), (0x325, "Aa", "Ḁḁ"), (0x326, "SsTt", "ȘșȚț"),
    (0x327, "CcGgKkLlNnRrSsTtEeDdHh", "ÇçĢģĶķĻļŅņŖŗŞşŢţȨȩḐḑḨḩ"),
    (0x328, "AaEeIiUuOo", "ĄąĘęĮįŲųǪǫ"), (0x32D, "DdEeLlNnTtUu", "ḒḓḘḙḼḽṊṋṰṱṶṷ"),
    (0x32E, "Hh", "Ḫḫ"), (0x330, "EeIiUu", "ḚḛḬḭṴṵ"),
    (0x331, "BbDdKkLlNnRrTtZzh", "ḆḇḎḏḴḵḺḻṈṉṞṟṮṯẔẕẖ"),
    (0x342, "ἀἁἈἉἠἡἨἩἰἱἸἹὐὑὙὠὡὨὩαηιϊυϋω", "ἆἇἎἏἦἧἮἯἶἷἾἿὖὗὟὦὧὮὯᾶῆῖῗῦῧῶ"),
    (0x345, "ἀἁἂἃἄἅἆἇἈἉἊἋἌἍἎἏἠἡἢἣἤἥἦἧἨἩἪἫἬἭἮἯὠὡὢὣ", "ᾀᾁᾂᾃᾄᾅᾆᾇᾈᾉᾊᾋᾌᾍᾎᾏᾐᾑᾒᾓᾔᾕᾖᾗᾘᾙᾚᾛᾜᾝᾞᾟᾠᾡᾢᾣ"),
    (0x345, "ὤὥὦὧὨὩὪὫὬὭὮὯὰαάᾶΑὴηήῆΗὼωώῶΩ", "ᾤᾥᾦᾧᾨᾩᾪᾫᾬᾭᾮᾯᾲᾳᾴᾷᾼῂῃῄῇῌῲῳῴῷῼ"), (0x653, "ا", "آ"),
    (0x654, "اويەہے", "أؤئۀۂۓ"), (0x655, "ا", "إ"),
    (0x3099, "かきくけこさしすせそたちつてとはひふへほうゝカキクケコサシスセソタチツテ", "がぎぐげござじずぜぞだぢづでどばびぶべぼゔゞガギグゲゴザジズゼゾダヂヅデ"),
    (0x3099, "トハヒフヘホウワヰヱヲヽ", "ドバビブベボヴヷヸヹヺヾ"), (0x309A, "はひふへほハヒフヘホ", "ぱぴぷぺぽパピプペポ")]

/-- Further characters with a mark, each as the character, the mark and the whole. -/
def vowelSigns : List (Nat × Nat × Nat) :=
  [(0x928, 0x93C, 0x929), (0x930, 0x93C, 0x931), (0x933, 0x93C, 0x934), (0x9C7, 0x9BE, 0x9CB),
    (0x9C7, 0x9D7, 0x9CC), (0xB47, 0xB3E, 0xB4B), (0xB47, 0xB56, 0xB48), (0xB47, 0xB57, 0xB4C),
    (0xBC6, 0xBBE, 0xBCA), (0xBC7, 0xBBE, 0xBCB), (0xB92, 0xBD7, 0xB94), (0xBC6, 0xBD7, 0xBCC),
    (0xC46, 0xC56, 0xC48), (0xCC6, 0xCC2, 0xCCA), (0xCBF, 0xCD5, 0xCC0), (0xCC6, 0xCD5, 0xCC7),
    (0xCCA, 0xCD5, 0xCCB), (0xCC6, 0xCD6, 0xCC8), (0xD46, 0xD3E, 0xD4A), (0xD47, 0xD3E, 0xD4B),
    (0xD46, 0xD57, 0xD4C), (0xDD9, 0xDCA, 0xDDA), (0xDDC, 0xDCA, 0xDDD), (0xDD9, 0xDCF, 0xDDC),
    (0xDD9, 0xDDF, 0xDDE), (0x1025, 0x102E, 0x1026), (0x1B05, 0x1B35, 0x1B06),
    (0x1B07, 0x1B35, 0x1B08), (0x1B09, 0x1B35, 0x1B0A), (0x1B0B, 0x1B35, 0x1B0C),
    (0x1B0D, 0x1B35, 0x1B0E), (0x1B11, 0x1B35, 0x1B12), (0x1B3A, 0x1B35, 0x1B3B),
    (0x1B3C, 0x1B35, 0x1B3D), (0x1B3E, 0x1B35, 0x1B40), (0x1B3F, 0x1B35, 0x1B41),
    (0x1B42, 0x1B35, 0x1B43), (0x11099, 0x110BA, 0x1109A), (0x1109B, 0x110BA, 0x1109C),
    (0x110A5, 0x110BA, 0x110AB), (0x11131, 0x11127, 0x1112E), (0x11132, 0x11127, 0x1112F),
    (0x11347, 0x1133E, 0x1134B), (0x11347, 0x11357, 0x1134C), (0x114B9, 0x114B0, 0x114BC),
    (0x114B9, 0x114BA, 0x114BB), (0x114B9, 0x114BD, 0x114BE), (0x115B8, 0x115AF, 0x115BA),
    (0x115B9, 0x115AF, 0x115BB), (0x11935, 0x11930, 0x11938)]

/-- The syllable of a leading letter and a vowel, or of such a syllable and a trailing letter. -/
def syllable? (a b : Nat) : Option Nat :=
  if 0x1100 ≤ a && a < 0x1113 && 0x1161 ≤ b && b < 0x1176 then
    some (0xAC00 + ((a - 0x1100) * 21 + (b - 0x1161)) * 28)
  else if 0xAC00 ≤ a && a < 0xD7A4 && (a - 0xAC00) % 28 = 0 && 0x11A7 < b && b < 0x11C3 then
    some (a + (b - 0x11A7))
  else none

/-- What a syllable is made of: a trailing letter is taken off before the vowel. -/
def syllableParts? (s : Nat) : Option (Nat × Nat) :=
  if 0xAC00 ≤ s && s < 0xD7A4 then
    let i := s - 0xAC00
    if i % 28 = 0 then some (0x1100 + i / 588, 0x1161 + i % 588 / 28)
    else some (s - i % 28, 0x11A7 + i % 28)
  else none

/-- A character with a mark on it, if there is one. -/
def whole? (c mark : Char) : Option Char :=
  let accented := accents.findSome? fun (m, bases, wholes) =>
    if m = mark.toNat then (bases.toList.zip wholes.toList).lookup c else none
  let sign := vowelSigns.findSome? fun (base, m, whole) =>
    if base = c.toNat && m = mark.toNat then some whole else none
  accented.or ((sign.or (syllable? c.toNat mark.toNat)).map Char.ofNat)

/-- The character and the mark that a character consists of, if it does. The first that does is
U+00C0. -/
def parts? (c : Char) : Option (Char × Char) :=
  if c.toNat < 0xC0 then none else
  let accented := accents.findSome? fun (m, bases, wholes) =>
    ((wholes.toList.zip bases.toList).lookup c).map (·, Char.ofNat m)
  let sign := vowelSigns.findSome? fun (base, m, whole) =>
    if whole = c.toNat then some (base, m) else none
  accented.or
    ((sign.or (syllableParts? c.toNat)).map fun (base, m) => (Char.ofNat base, Char.ofNat m))

end LazyMatch.Text
